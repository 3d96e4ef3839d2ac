import Pfv.Ledger.BalanceLaw
import Pfv.Ledger.Matches
import Pfv.Ledger.ReconcileLaw

/-!
# The consistency check of a balance

`reconcileAccount` compares the stored balance of an account with the sum of the settled rows on it.
The stored balance starts at the opening balance, which the sum leaves out, and a settled row that
is skipped, rejected or matched is taken off the balance while the sum still counts it. Where no
request does the latter, and no single delete takes along a row of another status, a balance is
found consistent exactly when its account opened at zero.

## Main definitions

* `Request.KeepsTotals`: the requests that move a balance and the sum of its settled rows alike.
* `Db.NoSelfLink`: no row is linked to itself.

## Main results

* `Request.step_settledBalanced`: such a request keeps a ledger balanced for settled amounts.
* `consistent_iff_of_run`: what the check reports after every run of such requests.
-/

namespace Pfv

/-- The requests that move a balance and the sum of its settled rows alike: a single delete takes
along a row of the same status or without an amount, and no settled unlinked row is matched, skipped
or rejected. -/
def Request.KeepsTotals (db : Db) : Request → Prop
  | .delete org id => ∀ tx l p, db.transaction? id org = some tx →
      tx.linkedTransactionId = some l → db.transaction? l org = some p →
      p.status = tx.status ∨ p.amount = 0
  | .reconcile org b body => ∀ batch, db.importBatch? b org = some batch →
      Throughout (fun s tr => ∀ tx, s.1.transaction? tr.transactionId org = some tx →
          tx.reconciliationState ≠ tr.toState → tx.status = .settled →
          tx.linkedTransactionId = none →
          tr.toState ≠ .matched ∧ tr.toState ≠ .skipped ∧ tr.toState ≠ .rejected)
        (reconcileOne org) (db, batch) body.transitions
  | _ => True

/-- No row is linked to itself. -/
def Db.NoSelfLink (db : Db) : Prop :=
  ∀ i, db.linkOf i ≠ some i

section

variable {db db' : Db} {org : ℕ}

/-! ### Rows linked to themselves -/

theorem noSelfLink_update {link : ℕ → Option ℕ} (h : ∀ i, link i ≠ some i) {k : ℕ} {l : Option ℕ}
    (hl : l ≠ some k) (i : ℕ) : Function.update link k l i ≠ some i := by
  by_cases hik : i = k
  · subst hik
    rwa [Function.update_self]
  · rw [Function.update_of_ne hik]
    exact h i

theorem Db.NoSelfLink.congr (h : db.NoSelfLink) (hlink : db'.linkOf = db.linkOf) :
    db'.NoSelfLink := by
  unfold NoSelfLink
  rwa [hlink]

theorem Db.NoSelfLink.deleteTransactions (h : db.NoSelfLink) (ids : List ℕ) :
    (db.deleteTransactions ids).NoSelfLink := by
  intro i
  rw [linkOf_deleteTransactions]
  simp only
  split_ifs
  · simp
  · intro hi
    exact h i (Option.filter_eq_some_iff.mp hi).1

/-- Adding to the ledger links no row to itself. -/
theorem Db.Grows.noSelfLink {P : Transaction → Prop} (hgrow : Db.Grows P db db')
    (h : db.NoSelfLink) : db'.NoSelfLink := by
  cases hgrow with
  | openAccount | addCategory | setTemplates => exact h
  | post t hrow hnew => exact h.congr (linkOf_post hnew.link)
  | link e i cat hlink =>
    intro j
    rw [linkOf_linkRows hlink]
    refine noSelfLink_update (noSelfLink_update h ?_) ?_ j
    · simpa using hlink.id_ne.symm
    · simpa using hlink.id_ne
  | retemplate f hf hf' => exact h.congr (linkOf_mapRows fun t ht => by rw [hf' t ht])
  | openBatch ids org b hf =>
    have hlink : ∀ t ∈ db.transactions.rows,
        (t.assignBatch ids org db.importBatches.next).linkedTransactionId =
          t.linkedTransactionId := fun t _ => by rw [assignBatch_eq]
    exact h.congr (linkOf_mapRows hlink)

theorem Db.GrowsMany.noSelfLink {P : Transaction → Prop} (hgrow : db.GrowsMany P db')
    (h : db.NoSelfLink) : db'.NoSelfLink :=
  hgrow.induct (fun h hstep => hstep.noSelfLink h) h

theorem reconcileOne_noSelfLink {s s' : Db × ImportBatch} {tr : ReconciliationTransition}
    (hwf : s.1.WellFormed) (h : s.1.NoSelfLink) (hone : reconcileOne org s tr = .ok s') :
    s'.1.NoSelfLink := by
  obtain ⟨tx, htx, -, ⟨-, rfl⟩ | ⟨-, -, tx', htr, rfl, -⟩⟩ :=
    reconcileOne_ok (fun tx htx hb => hwf.manual_of_batch htx hb) hone
  · exact h
  have hget := Db.transaction?_self htx
  intro i
  rw [linkOf_restate htr.id_eq hget]
  refine noSelfLink_update h ?_ i
  rw [htr.id_eq]
  by_cases hmatched : tr.toState = .matched
  · obtain ⟨m, -, hne, hlink⟩ := htr.link_of_matched hmatched
    rw [hlink]
    simpa using hne
  · rw [htr.link_eq hmatched, ← Db.linkOf_of_get? hget]
    exact h tx.id

/-- No request links a row to itself. -/
theorem Request.step_noSelfLink {r : Request} (hwf : db.WellFormed) (h : db.NoSelfLink)
    (hstep : Request.step db r = .ok db') : db'.NoSelfLink := by
  by_cases hadds : r.Adds
  · exact (step_grows hwf hadds hstep).noSelfLink h
  cases r with
  | update org id body today =>
    obtain ⟨edited, hstep⟩ := map_fst_eq_ok.mp hstep
    obtain ⟨ids, hstep⟩ := updateTransaction_ok hstep
    obtain ⟨tx, htx, -, rfl, -, hcase⟩ := updateTransactionLocked_ok hstep
    have hget := Db.transaction?_self htx
    have hrevised : (db.revise tx (editTransaction tx body today)).linkOf = db.linkOf :=
      Db.linkOf_revise hget rfl rfl
    rcases hcase with ⟨-, rfl⟩ | ⟨p, hpair, ⟨-, -, rfl⟩ | ⟨amount, -, rfl⟩⟩
    · exact h.congr hrevised
    · exact h.congr hrevised
    · have hp' : (db.revise tx (editTransaction tx body today)).transactions.get? p.id =
          some p := by
        rw [Db.get?_revise]
        exact (if_neg hpair.id_ne).trans (Db.transaction?_self hpair.partner_mem)
      exact (h.congr hrevised).congr (Db.linkOf_revise hp' rfl rfl)
  | delete org id =>
    obtain ⟨tx, -, -, rfl⟩ := deleteTransaction_ok hstep
    exact (h.deleteTransactions _).congr (db.linkOf_deleteCascade _ _)
  | bulkDelete org ids =>
    obtain ⟨_, hstep⟩ := map_fst_eq_ok.mp hstep
    rcases bulkDeleteTransactions_ok hstep with rfl | rfl
    · exact h
    · exact (h.deleteTransactions _).congr (db.linkOf_remove _)
  | unpair org id ec ic =>
    obtain ⟨_, _, e, i, -, -, he, hi, -, -, het, hit, -, rfl⟩ := unpairTransactions_ok hstep
    have hne : e.id ≠ i.id := by
      intro hid
      rw [Table.get?_inj he hi hid, hit] at het
      exact absurd het (by decide)
    intro j
    rw [Db.linkOf_unlink he hi hne]
    exact noSelfLink_update (noSelfLink_update h (by simp)) (by simp) j
  | stopRecurring org id today =>
    obtain ⟨db₁, hgrow, -, hgrow'⟩ := stopRecurring_removes (P := fun _ => True) hwf hstep
    exact hgrow'.noSelfLink
      (((hgrow.noSelfLink h).deleteTransactions _).congr (db₁.linkOf_remove _))
  | deleteRecurring org id today =>
    obtain ⟨db₁, hgrow, -, hgrow'⟩ := deleteRecurring_removes (P := fun _ => True) hwf hstep
    exact hgrow'.noSelfLink
      (((hgrow.noSelfLink h).deleteTransactions _).congr (db₁.linkOf_remove _))
  | reconcile org b body =>
    obtain ⟨_, hstep⟩ := map_fst_eq_ok.mp hstep
    obtain ⟨batch, db₁, batch₁, -, hloop, rfl⟩ := reconcileRequest_ok hstep
    exact (foldlM_invariant (fun s : Db × ImportBatch => s.1.WellFormed ∧ s.1.NoSelfLink)
      (fun _ _ _ hs hone =>
        ⟨reconcileOne_wellFormed hs.1 hone, reconcileOne_noSelfLink hs.1 hs.2 hone⟩)
      body.transitions (db, batch) (db₁, batch₁) ⟨hwf, h⟩ hloop).2
  | _ => exact absurd trivial hadds

/-! ### Balances -/

/-- A delete that takes along a row without an amount moves the balances as removing both does. -/
theorem Db.deleteCascade_eq_remove_of_amount_eq_zero {tx p : Transaction} (h : p.amount = 0) :
    db.deleteCascade tx (some p) = db.remove [tx, p] := by
  have hids : ∀ i, i ∈ [p.id, tx.id] ↔ i ∈ [tx, p].map (·.id) := by
    intro i
    simp [or_comm]
  have hsigned : p.type.signed p.amount = 0 := by
    rw [h]
    cases p.type <;> rfl
  have hsettled : p.settledAmount = 0 := by
    simp [Transaction.settledAmount, hsigned]
  rw [deleteCascade, deleteTransactions_congr _ hids, remove]
  congr 1
  show _ = (db.credit tx.accountId (-tx.settledAmount)).credit p.accountId (-p.settledAmount)
  rw [hsigned, hsettled, neg_zero, credit_zero, credit_zero]
  unfold Transaction.settledAmount
  split_ifs
  · rfl
  · rw [neg_zero, credit_zero]

theorem deleteTransaction_settledBalanced {id : ℕ} (hwf : db.WellFormed)
    (hbal : db.Balanced Transaction.settledAmount) (hself : db.NoSelfLink)
    (hr : Request.KeepsTotals db (.delete org id)) (h : deleteTransaction db org id = .ok db') :
    db'.Balanced Transaction.settledAmount := by
  obtain ⟨tx, htx, -, rfl⟩ := deleteTransaction_ok h
  have hget := Db.transaction?_self htx
  cases hp : tx.linkedTransactionId.bind fun l => db.transaction? l org with
  | none =>
    refine hbal.remove_settled hwf (List.nodup_singleton _) fun t ht => ?_
    rw [List.mem_singleton.mp ht]
    exact hget
  | some p =>
    obtain ⟨l, hl, hlp⟩ := Option.bind_eq_some_iff.mp hp
    have hpget := Db.transaction?_self hlp
    have hne : tx.id ≠ p.id := by
      intro hid
      have hlink := hself tx.id
      rw [Db.linkOf_of_get? hget, hl, hid, Db.transaction?_id hlp] at hlink
      exact hlink rfl
    have hremove : db.deleteCascade tx (some p) = db.remove [tx, p] := by
      rcases hr tx l p htx hl hlp with hstatus | hzero
      · exact db.deleteCascade_eq_remove hstatus
      · exact Db.deleteCascade_eq_remove_of_amount_eq_zero hzero
    rw [hremove]
    refine hbal.remove_settled hwf (by simpa using hne) fun t ht => ?_
    rcases List.mem_cons.mp ht with rfl | ht
    · exact hget
    · rw [List.mem_singleton.mp ht]
      exact hpget

/-- An edit transition comes with its edits. -/
theorem edits_isSome_of_reconcileOne {s s' : Db × ImportBatch} {tr : ReconciliationTransition}
    (h : reconcileOne org s tr = .ok s') (hedited : tr.toState = .edited) :
    tr.edits.isSome = true := by
  unfold reconcileOne validatePayloadShape at h
  simp only [hedited, ↓unit_bind_eq_ok, raiseIf_eq_ok] at h
  simpa [Option.isSome_iff_ne_none] using h.1.1

/-- A transition of a row that stays reportable, or was not, moves the balance of a settled row by
the change of its amount. -/
theorem reconcileOne_settledBalanced {s s' : Db × ImportBatch} {tr : ReconciliationTransition}
    (hwf : s.1.WellFormed) (hbal : s.1.Balanced Transaction.settledAmount)
    (hok : ∀ tx, s.1.transaction? tr.transactionId org = some tx →
      tx.reconciliationState ≠ tr.toState → tx.status = .settled → tx.linkedTransactionId = none →
      tr.toState ≠ .matched ∧ tr.toState ≠ .skipped ∧ tr.toState ≠ .rejected)
    (h : reconcileOne org s tr = .ok s') : s'.1.Balanced Transaction.settledAmount := by
  obtain ⟨tx, htx, hb, ⟨-, rfl⟩ | ⟨hne, hallowed, tx', htr, rfl, -⟩⟩ :=
    reconcileOne_ok (fun tx htx hb => hwf.manual_of_batch htx hb) h
  · exact hbal
  have hget := Db.transaction?_self htx
  have hmanual := hwf.manual_of_batch htx hb
  have hmoved : tx'.reportedAmount - tx.reportedAmount =
      tx'.settledAmount - tx.settledAmount := by
    unfold Transaction.reportedAmount Transaction.settledAmount
    rw [htr.status_eq]
    cases hstatus : tx.status with
    | pending => simp
    | settled =>
      cases hlink : tx.linkedTransactionId with
      | none =>
        -- Both versions are reportable.
        obtain ⟨hmatched, hskipped, hrejected⟩ := hok tx htx hne hstatus hlink
        have hrep' : tx'.isReportable = true := by
          rw [Transaction.isReportable_eq_true, htr.link_eq hmatched, htr.manual_eq, htr.state_eq]
          exact ⟨hlink, hmanual, hskipped, hrejected⟩
        have hrep : tx.isReportable = true := by
          rw [Transaction.isReportable_eq_true]
          refine ⟨hlink, hmanual, fun hs => ?_, fun hs => ?_⟩
          · simp [hs, allowedTransitions] at hallowed
          · simp [hs, allowedTransitions] at hallowed
        simp [hrep, hrep']
      | some l =>
        -- Neither version is reportable, and a linked row is not edited.
        have hlinked : tx.linkedTransactionId.isSome := by simp [hlink]
        have hamount : tx'.amount = tx.amount := by
          refine htr.amount_eq fun hedited => ?_
          have := htr.unlinked_of_edited hedited (edits_isSome_of_reconcileOne h hedited)
          rw [this] at hlink
          exact absurd hlink (by simp)
        have hrep : tx.isReportable = false := by
          simp [Transaction.isReportable, hlink]
        have hrep' : tx'.isReportable = false := by
          have hlinked' := htr.reconciled.linked hlinked
          rw [Option.isSome_iff_ne_none] at hlinked'
          simp [Transaction.isReportable, hlinked']
        simp [hrep, hrep', hamount, htr.type_eq]
  refine Db.balanced_of_isSome (hwf.restate (htr.rowOk (hwf.row hget))) fun k hk => ?_
  have hk' : (s.1.accounts.get? k).isSome := by
    rwa [Db.restate, Db.putTransaction_accounts, Db.isSome_get?_credit] at hk
  rw [Db.drift_restate hk' (htr.id_eq ▸ hget) htr.accountId_eq fun _ _ => rfl, hbal k, hmoved]
  simp

/-- A request that moves balances and sums alike keeps a ledger balanced for settled amounts. -/
theorem Request.step_settledBalanced {r : Request} (hwf : db.WellFormed)
    (hbal : db.Balanced Transaction.settledAmount) (hself : db.NoSelfLink)
    (hr : r.KeepsTotals db) (h : Request.step db r = .ok db') :
    db'.Balanced Transaction.settledAmount := by
  cases r with
  | delete org id => exact deleteTransaction_settledBalanced hwf hbal hself hr h
  | reconcile org b body =>
    obtain ⟨_, h⟩ := map_fst_eq_ok.mp h
    obtain ⟨batch, db₁, batch₁, hbatch, hloop, rfl⟩ := reconcileRequest_ok h
    exact ((hr batch hbatch).foldlM_invariant
      (fun s : Db × ImportBatch => s.1.WellFormed ∧ s.1.Balanced Transaction.settledAmount)
      (fun _ _ _ hs hitem hone => ⟨reconcileOne_wellFormed hs.1 hone,
        reconcileOne_settledBalanced hs.1 hs.2 hitem hone⟩) ⟨hwf, hbal⟩ hloop).2
  | _ => exact Request.step_balanced hwf hbal (by exact trivial) h

/-! ### The check -/

/-- The rows the check sums up are the settled rows of the account, which are all of its
organisation. -/
theorem settledTotal_eq (hwf : db.WellFormed) {a : ℕ} {acct : Account}
    (hacct : db.accounts.get? a = some acct) (type : TransactionType) :
    settledTotal db acct.orgId acct.id type = db.settledSum a type := by
  unfold settledTotal Db.settledSum
  rw [show acct.id = a from Table.get?_id hacct]
  congr 2
  refine List.filter_congr fun t ht => ?_
  by_cases hta : t.accountId = a
  · obtain ⟨acct', hacct'⟩ := (hwf.row (Table.get?_of_mem ht)).account
    obtain ⟨hget, horg⟩ := Db.account?_eq_some.mp hacct'
    rw [hta, hacct, Option.some_inj] at hget
    simp [hta, hget, horg]
  · simp [hta]

/-- The consistency check: after every run of requests in which no single delete takes along a row
of another status with an amount and no settled unlinked row is matched, skipped or rejected, the
check of an account reports its stored balance, and finds it consistent exactly when the account
opened at zero. -/
theorem consistent_iff_of_run (hseeded : db.Seeded) {rs : List Request}
    (hrs : Admits (fun d r => r.KeepsTotals d) Request.step db rs) {a : ℕ} {acct : Account}
    (hacct : (serveAll Request.step db rs).accounts.get? a = some acct) :
    (reconcileAccount (serveAll Request.step db rs) acct.orgId acct).1 = acct.balance ∧
      ((reconcileAccount (serveAll Request.step db rs) acct.orgId acct).2.1 = acct.balance ↔
        acct.openingBalance = 0) ∧
      ((reconcileAccount (serveAll Request.step db rs) acct.orgId acct).2.2 = true ↔
        acct.openingBalance = 0) := by
  have hself : db.NoSelfLink := fun i => by simp [Db.linkOf, hseeded.get?_transactions]
  obtain ⟨hwf, -, hbal⟩ := serveAll_invariant
    (I := fun d : Db => d.WellFormed ∧ d.NoSelfLink ∧ d.Balanced Transaction.settledAmount)
    (fun d r d' hd hr hstep => ⟨Request.step_wellFormed hd.1 hstep,
      Request.step_noSelfLink hd.1 hd.2.1 hstep,
      Request.step_settledBalanced hd.1 hd.2.2 hd.2.1 hr hstep⟩) rs
    ⟨hseeded.wellFormed, hself, hseeded.balanced _⟩ hrs
  have hlaw := hbal.balance_eq hacct
  refine ⟨rfl, ?_, ?_⟩
  · simp only [reconcileAccount, settledTotal_eq hwf hacct]
    constructor <;> intro h <;> linarith
  · simp only [reconcileAccount, settledTotal_eq hwf hacct, decide_eq_true_eq]
    constructor <;> intro h <;> linarith

end

/-! ### Sample runs -/

def sampleOpeningAccount (openingBalance : ℤ) (lower : -10 ^ 12 < openingBalance)
    (upper : openingBalance < 10 ^ 12) : Request :=
  .createAccount 1
    { name := "Checking", accountTypeId := 1, openingBalance := openingBalance
      closeDay_range := noCloseDay_range, lower := lower, upper := upper } sampleDate

/-- A transfer between two accounts that open at zero and an import; an imported row is reviewed,
and the transfer and the other imported row are deleted. -/
def sampleConsistentRun : List Request :=
  [sampleAccount "Checking", sampleAccount "Savings", sampleTransfer,
    sampleImport 1 [.expense, .income],
    sampleReconcile [{ transactionId := 4, toState := .pendingReview },
      { transactionId := 4, toState := .accepted }] (by decide) (by decide),
    .delete 1 1, .delete 1 3]

theorem sampleConsistentRun_admits :
    Admits (fun d r => r.KeepsTotals d) Request.step sampleDb sampleConsistentRun := by
  have hdelete : ∀ {d : Db} {id : ℕ}, (∀ tx ∈ d.transaction? id 1, ∀ l ∈ tx.linkedTransactionId,
      ∀ p ∈ d.transaction? l 1, p.status = tx.status) → Request.KeepsTotals d (.delete 1 id) :=
    fun h tx l p htx hl hp => .inl (h tx htx l hl p hp)
  refine ⟨trivial, trivial, trivial, trivial,
    fun batch _ => .of_forall fun tr htr s tx _ _ _ _ => ?_,
    hdelete (by decide +kernel), hdelete (by decide +kernel), trivial⟩
  simp only [List.mem_cons, List.not_mem_nil, or_false] at htr
  rcases htr with rfl | rfl <;> decide

/-- The account of the sample run is found consistent. -/
theorem consistent_iff_of_sampleConsistentRun :
    ∃ acct, (serveAll Request.step sampleDb sampleConsistentRun).accounts.get? 1 = some acct ∧
      acct.balance = 1000 ∧
      (reconcileAccount (serveAll Request.step sampleDb sampleConsistentRun) 1 acct).2.2 =
        true := by
  have hacct : (serveAll Request.step sampleDb sampleConsistentRun).accounts.get? 1 =
      some { id := 1, orgId := 1, accountTypeId := 1, name := "Checking", balance := 1000
             openingBalanceDate := sampleDate } := by
    decide +kernel
  exact ⟨_, hacct, rfl,
    (consistent_iff_of_run sampleDb_seeded sampleConsistentRun_admits hacct).2.2.mpr rfl⟩

theorem sampleOpening_lower : (-10 ^ 12 : ℤ) < 5000 := by decide

theorem sampleOpening_upper : (5000 : ℤ) < 10 ^ 12 := by decide

/-- An account that opens at 50.00; and an import whose row is reopened and skipped. -/
def sampleInconsistentRuns : List (List Request) :=
  [[sampleOpeningAccount 5000 sampleOpening_lower sampleOpening_upper],
    [sampleAccount "Checking", sampleImport 1 [.expense],
      sampleReconcile [{ transactionId := 1, toState := .pendingReview },
        { transactionId := 1, toState := .skipped }] (by decide) (by decide)]]

/-- After each of these runs the check finds the account inconsistent. -/
theorem not_consistent_of_sampleInconsistentRuns :
    sampleInconsistentRuns.Forall fun rs =>
      ∃ acct, (serveAll Request.step sampleDb rs).accounts.get? 1 = some acct ∧
        (reconcileAccount (serveAll Request.step sampleDb rs) 1 acct).2.2 = false := by
  have hcheck : ∀ rs ∈ sampleInconsistentRuns,
      ((serveAll Request.step sampleDb rs).accounts.get? 1).map
        (fun acct => (reconcileAccount (serveAll Request.step sampleDb rs) 1 acct).2.2) =
          some false := by
    simp only [sampleInconsistentRuns, List.forall_mem_cons]
    refine ⟨by decide +kernel, by decide +kernel, by simp⟩
  rw [List.forall_iff_forall_mem]
  intro rs hrs
  exact Option.map_eq_some_iff.mp (hcheck rs hrs)

end Pfv
