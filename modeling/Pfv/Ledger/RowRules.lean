import Pfv.Ledger.Drift

/-!
# Rules on single rows

A rule on rows that looks at what a row was entered with, and not at its link, category, template
and batch, holds of every row of the ledger when it holds of the rows that requests post, of the
rows an edit writes and of the rows a reconcile request leaves. The checks of a flush are such a
rule.

## Main definitions

* `Db.Rows P`: every row of the ledger satisfies `P`.
* `Transaction.EntryRule P`: links, categories, templates, batches and mirrored amounts do not
  matter to `P`.

## Main results

* `Request.step_rows`: what a request keeps.
* `Db.ReachableBy.flushable`: in every reachable database, every row passes the checks of a flush.
-/

namespace Pfv

/-- Every row of the ledger satisfies `P`. -/
def Db.Rows (db : Db) (P : Transaction → Prop) : Prop :=
  ∀ i t, db.transactions.get? i = some t → P t

/-- The links, categories, templates and batches of rows do not matter to `P`, nor does the amount
of a request mirrored to the partner of a row. -/
structure Transaction.EntryRule (P : Transaction → Prop) : Prop where
  sameEntry : ∀ {t t'}, P t → t.SameEntry t' → P t'
  withId : ∀ {t} (n : ℕ), P t → P { t with id := n }
  mirrored : ∀ {t} (a : Amount), P t → P { t with amount := a.cents }

section

variable {P : Transaction → Prop} {db db' : Db}

namespace Db

theorem Rows.of_transactions (h : db.Rows P) (heq : db'.transactions = db.transactions) :
    db'.Rows P :=
  fun i t ht => h i t (heq ▸ ht)

theorem Seeded.rows (hseeded : db.Seeded) : db.Rows P := by
  intro i t ht
  have := Table.get?_mem ht
  simp [hseeded.transactions] at this

/-- Writing back a row that satisfies the rule. -/
theorem Rows.putTransaction (h : db.Rows P) {t : Transaction} (ht : P t) :
    (db.putTransaction t).Rows P := by
  intro i u hu
  rw [get?_putTransaction] at hu
  split_ifs at hu
  · obtain ⟨-, -, rfl⟩ := Option.map_eq_some_iff.mp hu
    exact ht
  · exact h i u hu

theorem Rows.revise (h : db.Rows P) (t : Transaction) {t' : Transaction} (ht' : P t') :
    (db.revise t t').Rows P := by
  have hcredit : (db.credit t.accountId (-t.settledAmount)).Rows P := h.of_transactions rfl
  exact (hcredit.putTransaction ht').of_transactions rfl

theorem Rows.deleteTransactions (h : db.Rows P) (hP : Transaction.EntryRule P) (ids : List ℕ) :
    (db.deleteTransactions ids).Rows P := by
  intro i u hu
  obtain ⟨-, t, ht, rfl⟩ := get?_deleteTransactions_eq_some.mp hu
  exact hP.sameEntry (h i t ht) (sameEntry_unlinkFrom ids t)

theorem Rows.remove (h : db.Rows P) (hP : Transaction.EntryRule P) (rows : List Transaction) :
    (db.remove rows).Rows P :=
  (h.deleteTransactions hP _).of_transactions (db.remove_transactions rows)

theorem Grows.rows (hgrow : Db.Grows P db db') (hP : Transaction.EntryRule P) (h : db.Rows P) :
    db'.Rows P := by
  intro i t' ht'
  rcases hgrow.row_cases ht' with ⟨t, ht, hsame⟩ | ⟨t, ht, rfl⟩
  · exact hP.sameEntry (h i t ht) hsame
  · exact hP.withId _ ht

theorem GrowsMany.rows (hgrow : db.GrowsMany P db') (hP : Transaction.EntryRule P)
    (h : db.Rows P) : db'.Rows P :=
  hgrow.induct (fun h hstep => hstep.rows hP h) h

end Db

/-- A request keeps a rule on single rows that the rows it posts, the row an edit writes and the
rows a reconcile request leaves satisfy. -/
theorem Request.step_rows {r : Request} (hP : Transaction.EntryRule P) (hwf : db.WellFormed)
    (h : db.Rows P) (hposts : db.Posts P)
    (hupdate : ∀ org id body today ids db' edited,
      updateTransactionLocked db org id body today ids = .ok (db', edited) → P edited)
    (hreconcile : ∀ org b body, r = .reconcile org b body → ∀ batch s',
      db.importBatch? b org = some batch →
      body.transitions.foldlM (reconcileOne org) (db, batch) = .ok s' → s'.1.Rows P)
    (hstep : Request.step db r = .ok db') : db'.Rows P := by
  by_cases hadds : r.Adds
  · exact (step_growsMany hwf hposts hadds hstep).rows hP h
  cases r with
  | update org id body today =>
    obtain ⟨edited, hstep⟩ := map_fst_eq_ok.mp hstep
    obtain ⟨ids, hstep⟩ := updateTransaction_ok hstep
    have hedited := hupdate _ _ _ _ _ _ _ hstep
    obtain ⟨tx, htx, -, rfl, -, hcase⟩ := updateTransactionLocked_ok hstep
    rcases hcase with ⟨-, rfl⟩ | ⟨p, hpair, ⟨-, -, rfl⟩ | ⟨amount, -, rfl⟩⟩
    · exact h.revise _ hedited
    · exact h.revise _ hedited
    · have hp := h _ _ (Db.transaction?_self hpair.partner_mem)
      exact (h.revise _ hedited).revise _ (hP.mirrored amount hp)
  | delete org id =>
    obtain ⟨tx, -, -, rfl⟩ := deleteTransaction_ok hstep
    exact (h.deleteTransactions hP _).of_transactions (db.deleteCascade_transactions _ _)
  | bulkDelete org ids =>
    obtain ⟨_, hstep⟩ := map_fst_eq_ok.mp hstep
    rcases bulkDeleteTransactions_ok hstep with rfl | rfl
    · exact h
    · exact h.remove hP _
  | unpair org id ec ic =>
    obtain ⟨_, _, e, i, -, -, he, hi, -, -, -, -, -, rfl⟩ := unpairTransactions_ok hstep
    have he' := hP.sameEntry (h _ _ he) (sameEntry_unlink e ec)
    have hi' := hP.sameEntry (h _ _ hi) (sameEntry_unlink i ic)
    exact (h.putTransaction he').putTransaction hi'
  | stopRecurring org id today =>
    obtain ⟨db₁, hgrow, -, hgrow'⟩ := stopRecurring_removes (P := P) hwf hstep
    exact hgrow'.rows hP ((hgrow.rows hP h).remove hP _)
  | deleteRecurring org id today =>
    obtain ⟨db₁, hgrow, -, hgrow'⟩ := deleteRecurring_removes (P := P) hwf hstep
    exact hgrow'.rows hP ((hgrow.rows hP h).remove hP _)
  | reconcile org b body =>
    obtain ⟨_, hstep⟩ := map_fst_eq_ok.mp hstep
    obtain ⟨batch, db₁, batch₁, hbatch, hloop, rfl⟩ := reconcileRequest_ok hstep
    exact hreconcile org b body rfl batch _ hbatch hloop
  | _ => exact absurd trivial hadds

/-! ### The checks of a flush -/

theorem flushable_entryRule : Transaction.EntryRule Transaction.Flushable where
  sameEntry h hsame := by
    rw [hsame]
    exact h
  withId _ h := h
  mirrored a h := ⟨h.1, h.2.1, a.inColumn, h.2.2.2⟩

theorem Db.Rows.posts_flushable (h : db.Rows Transaction.Flushable) :
    db.Posts Transaction.Flushable where
  created _ _ _ _ _ hflush := hflush
  leg body org account category description type hlength :=
    ⟨fun hs => by
      have hstatus : body.status = .settled := hs
      simp [TransferCreate.leg, hstatus], hlength, body.amount.inColumn, rfl⟩
  partner _ _ _ source hsource :=
    have hsource : source.Flushable := h _ _ (transaction?_self hsource)
    ⟨hsource.1, hsource.2.1, hsource.2.2.1, rfl⟩
  generated _ hflush := hflush

/-- An edit that went through passed the flush. -/
theorem updateTransactionLocked_flushable {org id : ℕ} {body : TransactionUpdate} {today : Date}
    {ids : List ℕ} {edited : Transaction}
    (h : updateTransactionLocked db org id body today ids = .ok (db', edited)) :
    edited.Flushable := by
  obtain ⟨tx, mirror, db₁, hwrite⟩ := updateTransactionLocked_writes h
  exact (writeEdit_checks hwrite).1

/-- The payload of a transition does not touch the stored rows. -/
theorem applyPayload_transactions {org : ℕ} {tx tx' : Transaction} {tr : ReconciliationTransition}
    (h : applyPayload db org tx tr = .ok (db', tx')) : db'.transactions = db.transactions := by
  unfold applyPayload at h
  split at h
  · obtain ⟨-, -, rfl⟩ := applyEdits_ok h
    rfl
  · obtain ⟨_, -, h⟩ := bind_eq_ok.mp h
    rw [pure_eq_ok, Prod.mk.injEq] at h
    rw [h.1]
  · rw [pure_eq_ok, Prod.mk.injEq] at h
    rw [h.1]

/-- A transition flushes the row it writes. -/
theorem reconcileOne_flushable {org : ℕ} {s s' : Db × ImportBatch} {tr : ReconciliationTransition}
    (h : s.1.Rows Transaction.Flushable) (hone : reconcileOne org s tr = .ok s') :
    s'.1.Rows Transaction.Flushable := by
  unfold reconcileOne at hone
  simp only [↓unit_bind_eq_ok, bind_eq_ok, orRaise_eq_ok] at hone
  obtain ⟨-, tx, -, -, hone⟩ := hone
  split_ifs at hone
  · rw [← pure_eq_ok.mp hone]
    exact h
  · unfold transitionRow at hone
    simp only [↓unit_bind_eq_ok, bind_eq_ok, Prod.exists, saveTransaction_eq_ok,
      pure_eq_ok] at hone
    obtain ⟨-, db₁, edited, hpayload, db₂, hbalance, db₃, ⟨hflush, rfl⟩, rfl⟩ := hone
    refine Db.Rows.putTransaction (h.of_transactions ?_) hflush
    rw [applyBalanceForTransition_ok hbalance, ← applyPayload_transactions hpayload]
    rfl

/-- Every row of a reachable database passes the checks of a flush. -/
theorem Db.ReachableBy.flushable {ok : Request → Prop} (hreach : db.ReachableBy ok) :
    db.Rows Transaction.Flushable := by
  refine hreach.induct (fun _ hs => hs.rows) fun d r d' hwf h _ hstep => ?_
  refine Request.step_rows flushable_entryRule hwf h h.posts_flushable
    (fun _ _ _ _ _ _ _ hupdate => updateTransactionLocked_flushable hupdate) ?_ hstep
  rintro org b body - batch s' - hloop
  exact foldlM_invariant (fun s : Db × ImportBatch => s.1.Rows Transaction.Flushable)
    (fun _ _ _ hs hone => reconcileOne_flushable hs hone) _ _ _ h hloop

end

end Pfv
