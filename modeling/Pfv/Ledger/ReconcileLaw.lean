import Pfv.Ledger.Batches
import Pfv.Ledger.Drift

/-!
# The balance law of reconciliation

Reconcile requests on a batch move the balance of an account by the change of what the rows of the
batch count for: the signed amount of a row that is settled, unlinked and neither skipped nor
rejected. However often a row is skipped, matched, edited, accepted and reopened, nothing is
reverted twice.

## Main definitions

* `Transaction.countedAmount`: what a row counts for.
* `Db.importedRows b k`: the rows of a batch on an account that are not linked.
* `BatchFrame b start db`: what reconcile requests on a batch keep.

## Main results

* `Request.step_batchFrame`: a reconcile request on the batch keeps the frame.
* `balance_sub_eq_of_reconcileRun`: the law.
-/

namespace Pfv

/-- What a row counts for: its signed amount when it is settled, unlinked and neither skipped nor
rejected. -/
def Transaction.countedAmount (t : Transaction) : ℤ :=
  if t.status = .settled ∧ t.linkedTransactionId = none ∧ t.reconciliationState ≠ .skipped ∧
      t.reconciliationState ≠ .rejected then
    t.type.signed t.amount
  else 0

/-- What the row with a given id counts for. -/
def Db.countedAt (db : Db) (i : ℕ) : ℤ :=
  ((db.transactions.get? i).map Transaction.countedAmount).getD 0

/-- The rows of a batch on an account that are not linked. -/
def Db.importedRows (db : Db) (b k : ℕ) : List Transaction :=
  db.transactions.rows.filter fun t =>
    t.importBatchId = some b ∧ t.accountId = k ∧ t.linkedTransactionId = none

/-- Rows that are not manual adjustments count for what they report. -/
theorem Transaction.reportedAmount_eq_countedAmount {t : Transaction}
    (h : t.isManualAdjustment = false) : t.reportedAmount = t.countedAmount := by
  simp [reportedAmount, countedAmount, isReportable_eq_true, h]

theorem Transaction.reportedAmount_of_linked {t : Transaction}
    (h : t.linkedTransactionId.isSome) : t.reportedAmount = 0 := by
  rw [Option.isSome_iff_ne_none] at h
  simp [reportedAmount, isReportable_eq_true, h]

/-- What a row of a batch reports; the other rows weigh nothing. -/
def batchWeight (b : ℕ) (t : Transaction) : ℤ :=
  if t.importBatchId = some b then t.reportedAmount else 0

/-! ### The frame of a batch -/

/-- A later version of a row: reconciliation keeps its account, batch, status and type, and never
takes a link away. -/
structure Transaction.Reconciled (t t' : Transaction) : Prop where
  account_eq : t'.accountId = t.accountId
  batch_eq : t'.importBatchId = t.importBatchId
  manual_eq : t'.isManualAdjustment = t.isManualAdjustment
  linked : t.linkedTransactionId.isSome → t'.linkedTransactionId.isSome

theorem Transaction.Reconciled.trans {t t' t'' : Transaction} (h : t.Reconciled t')
    (h' : t'.Reconciled t'') : t.Reconciled t'' :=
  ⟨h'.account_eq.trans h.account_eq, h'.batch_eq.trans h.batch_eq, h'.manual_eq.trans h.manual_eq,
    fun hl => h'.linked (h.linked hl)⟩

theorem Transitioned.reconciled {tr : ReconciliationTransition} {tx tx' : Transaction}
    (h : Transitioned tr tx tx') : tx.Reconciled tx' := by
  refine ⟨h.accountId_eq, h.batch_eq, h.manual_eq, fun hl => ?_⟩
  by_cases hmatched : tr.toState = .matched
  · obtain ⟨m, -, -, hm⟩ := h.link_of_matched hmatched
    simp [hm]
  · rwa [h.link_eq hmatched]

/-- What reconcile requests on a batch keep: the accounts, the rows up to reconciliation, and the
drift of every account from what the rows of the batch report. -/
structure BatchFrame (b : ℕ) (start db : Db) : Prop where
  wellFormed : db.WellFormed
  accounts : start.KeepsAccounts db
  ids : db.transactions.rows.map Row.id = start.transactions.rows.map Row.id
  row : ∀ {i t}, start.transactions.get? i = some t →
    ∃ t', db.transactions.get? i = some t' ∧ t.Reconciled t'
  drift : ∀ k, (start.accounts.get? k).isSome →
    db.drift (batchWeight b) k = start.drift (batchWeight b) k

theorem BatchFrame.refl {db : Db} (hwf : db.WellFormed) (b : ℕ) : BatchFrame b db db :=
  ⟨hwf, .refl db, rfl, fun {_ t} ht => ⟨t, ht, rfl, rfl, rfl, id⟩, fun _ _ => rfl⟩

section

variable {start db db' : Db} {org b : ℕ}

/-- Restating a row of the batch keeps the frame. -/
theorem BatchFrame.restate (h : BatchFrame b start db) {tr : ReconciliationTransition}
    {tx tx' : Transaction} (hget : db.transactions.get? tx.id = some tx)
    (hb : tx.importBatchId = some b) (htr : Transitioned tr tx tx') :
    BatchFrame b start (db.restate tx tx') where
  wellFormed := h.wellFormed.restate (htr.rowOk (h.wellFormed.row hget))
  accounts := h.accounts.trans (Db.keepsAccounts_restate db tx tx')
  ids := (Table.ids_put _ _).trans h.ids
  row := by
    intro i t ht
    obtain ⟨u, hu, hrec⟩ := h.row ht
    rw [Db.get?_restate]
    split_ifs with hi
    · subst hi
      rw [htr.id_eq, hget, Option.some_inj] at hu
      subst hu
      exact ⟨tx', by rw [htr.id_eq, hget, Option.map_some], hrec.trans htr.reconciled⟩
    · exact ⟨u, hu, hrec⟩
  drift := by
    intro k hk
    have hw : batchWeight b tx = tx.reportedAmount := if_pos hb
    have hw' : batchWeight b tx' = tx'.reportedAmount := if_pos (htr.batch_eq.trans hb)
    rw [Db.drift_restate (h.accounts.isSome hk) (htr.id_eq ▸ hget) htr.accountId_eq
      (fun _ _ => rfl), hw, hw', sub_self, ite_self, add_zero, h.drift k hk]

theorem reconcileOne_batchFrame {s s' : Db × ImportBatch} {tr : ReconciliationTransition}
    (h : BatchFrame b start s.1 ∧ s.2.id = b) (hone : reconcileOne org s tr = .ok s') :
    BatchFrame b start s'.1 ∧ s'.2.id = b := by
  obtain ⟨tx, htx, hb, ⟨-, rfl⟩ | ⟨-, -, tx', htr, rfl, -⟩⟩ :=
    reconcileOne_ok (fun tx htx hb => h.1.wellFormed.manual_of_batch htx hb) hone
  · exact h
  · exact ⟨h.1.restate (Db.transaction?_self htx) (h.2 ▸ hb) htr, h.2⟩

/-- A reconcile request on the batch keeps the frame. -/
theorem Request.step_batchFrame {r : Request} (h : BatchFrame b start db) (hr : r.OnBatch org b)
    (hstep : Request.step db r = .ok db') : BatchFrame b start db' := by
  cases r with
  | reconcile org' batchId body =>
    obtain ⟨rfl, rfl⟩ := hr
    obtain ⟨_, hstep⟩ := map_fst_eq_ok.mp hstep
    obtain ⟨batch, db₁, batch₁, hbatch, hloop, rfl⟩ := reconcileRequest_ok hstep
    have hid := Db.importBatch?_id hbatch
    have hframe := (foldlM_invariant (fun s => BatchFrame batchId start s.1 ∧ s.2.id = batchId)
      (fun _ _ _ hs hone => reconcileOne_batchFrame hs hone) body.transitions (db, batch)
      (db₁, batch₁) ⟨h, hid⟩ hloop).1
    exact ⟨hframe.wellFormed.of_transactions (.of_eq rfl) rfl le_rfl rfl,
      hframe.accounts.trans (.of_eq rfl), hframe.ids, hframe.row, hframe.drift⟩
  | _ => exact hr.elim

theorem batchFrame_of_run {rs : List Request} (hwf : db.WellFormed)
    (hrs : ∀ r ∈ rs, r.OnBatch org b) : BatchFrame b db (serveAll Request.step db rs) := by
  have hadmits : Admits (fun _ r => r.OnBatch org b) Request.step db rs :=
    admits_of_forall (fun _ _ hr => hr) rs db hrs
  exact serveAll_invariant (fun _ _ _ hs hr hstep => Request.step_batchFrame hs hr hstep) rs
    (.refl hwf b) hadmits

/-! ### The law -/

/-- What the rows of the batch report on an account, row by row of the start. -/
theorem BatchFrame.sumOver_batchWeight (h : BatchFrame b start db) (hwf : start.WellFormed)
    (k : ℕ) :
    db.transactions.sumOver (·.accountId) (batchWeight b) k =
      ((start.importedRows b k).map fun t => db.countedAt t.id).sum := by
  rw [Table.sumOver, Table.sum_map_of_ids_eq h.ids, Db.importedRows]
  refine Eq.trans (congrArg List.sum (List.map_congr_left fun t ht => ?_))
    ((List.sum_map_ite (fun t : Transaction => t.importBatchId = some b ∧ t.accountId = k ∧
      t.linkedTransactionId = none) (fun t => db.countedAt t.id) (fun _ => 0) _).trans (by simp))
  obtain ⟨t', ht', hrec⟩ := h.row (Table.get?_of_mem ht)
  have hcounted : db.countedAt t.id = t'.countedAmount := by
    rw [Db.countedAt, show db.transactions.get? t.id = some t' from ht', Option.map_some,
      Option.getD_some]
  rw [ht', Option.map_some, Option.getD_some, batchWeight, hrec.account_eq, hrec.batch_eq, hcounted]
  by_cases hk : t.accountId = k <;> by_cases hb : t.importBatchId = some b
  · have hmanual := ((hwf.row (Table.get?_of_mem ht)).batch b hb).2
    rw [if_pos hk, if_pos hb]
    by_cases hl : t.linkedTransactionId = none
    · rw [if_pos ⟨hb, hk, hl⟩,
        Transaction.reportedAmount_eq_countedAmount (hrec.manual_eq.trans hmanual)]
    · rw [if_neg fun hall => hl hall.2.2,
        Transaction.reportedAmount_of_linked (hrec.linked (Option.isSome_iff_ne_none.mpr hl))]
  · rw [if_pos hk, if_neg hb, if_neg fun hall => hb hall.1]
  · rw [if_neg hk, if_neg fun hall => hk hall.2.1]
  · rw [if_neg hk, if_neg fun hall => hb hall.1]

/-- In a batch that was just opened, an unlinked row counts for its settled amount. -/
theorem Db.FreshBatch.countedAt_eq {batch : ImportBatch} (h : db.FreshBatch org b batch) {k : ℕ}
    {t : Transaction} (ht : t ∈ db.importedRows b k) : db.countedAt t.id = t.settledAmount := by
  simp only [Db.importedRows, List.mem_filter, decide_eq_true_eq] at ht
  obtain ⟨hmem, hb, -, hl⟩ := ht
  have hget : db.transactions.get? t.id = some t := Table.get?_of_mem hmem
  rw [Db.countedAt, hget, Option.map_some, Option.getD_some, Transaction.countedAmount,
    Transaction.settledAmount, h.accepted hget hb]
  simp [hl]

/-- Reconcile-only balance law: the change of a balance since an import, under any run of reconcile
requests on its batch, is the sum over the rows of the batch on the account that were unlinked at
the import of what each counts for now less its original settled amount. -/
theorem balance_sub_eq_of_reconcileRun (h : db.AfterImport org b) {rs : List Request}
    (hrs : ∀ r ∈ rs, r.OnBatch org b) {k : ℕ} {acct acct' : Account}
    (hacct : db.accounts.get? k = some acct)
    (hacct' : (serveAll Request.step db rs).accounts.get? k = some acct') :
    acct'.balance - acct.balance = ((db.importedRows b k).map fun t =>
      (serveAll Request.step db rs).countedAt t.id - t.settledAmount).sum := by
  obtain ⟨batch, hfresh⟩ := h.freshBatch
  have hframe := batchFrame_of_run hfresh.wellFormed hrs
  have hstart : db.transactions.sumOver (·.accountId) (batchWeight b) k =
      ((db.importedRows b k).map (·.settledAmount)).sum := by
    rw [(BatchFrame.refl hfresh.wellFormed b).sumOver_batchWeight hfresh.wellFormed]
    exact congrArg List.sum (List.map_congr_left fun t ht => hfresh.countedAt_eq ht)
  have hopening : acct'.openingBalance = acct.openingBalance := by
    obtain ⟨acct'', hget, -, -, hopen⟩ := hframe.accounts k acct hacct
    rw [hacct', Option.some_inj] at hget
    rw [hget, hopen]
  have hdrift := hframe.drift k (by simp [hacct])
  rw [Db.drift_eq_of_get? hacct, Db.drift_eq_of_get? hacct', hstart,
    hframe.sumOver_batchWeight hfresh.wellFormed, hopening] at hdrift
  have hsplit : ((db.importedRows b k).map fun t =>
      (serveAll Request.step db rs).countedAt t.id).sum =
      ((db.importedRows b k).map fun t =>
        (serveAll Request.step db rs).countedAt t.id - t.settledAmount).sum +
      ((db.importedRows b k).map (·.settledAmount)).sum := by
    rw [← List.sum_map_add]
    simp
  linarith

end

/-- Rows of the sample batch are skipped, edited, matched, and reopened after that. -/
def sampleStatesRun : List Request :=
  [sampleReconcile [{ transactionId := 1, toState := .pendingReview },
      { transactionId := 2, toState := .pendingReview },
      { transactionId := 3, toState := .pendingReview }] (by decide) (by decide),
    sampleReconcile [{ transactionId := 1, toState := .skipped },
      { transactionId := 2, toState := .matched, matchWithTransactionId := some 3 },
      { transactionId := 3, toState := .edited
        edits := some { amount := some ⟨2500, by decide, by decide⟩
                        description_le := by simp } }] (by decide) (by decide),
    sampleReconcile [{ transactionId := 2, toState := .accepted },
      { transactionId := 2, toState := .pendingReview },
      { transactionId := 2, toState := .skipped }] (by decide) (by decide)]

/-- The law on the sample batch: the skipped expense and the matched one are taken off, and the
edited income counts for its new amount. -/
theorem balance_sub_eq_of_sampleStatesRun :
    (2500 : ℤ) - (-1000) = ((sampleBatchDb.importedRows 1 1).map fun t =>
      (serveAll Request.step sampleBatchDb sampleStatesRun).countedAt t.id -
        t.settledAmount).sum := by
  have hrs : ∀ r ∈ sampleStatesRun, r.OnBatch 1 1 := by
    simp [sampleStatesRun, sampleReconcile, Request.OnBatch]
  have hacct : sampleBatchDb.accounts.get? 1 =
      some { id := 1, orgId := 1, accountTypeId := 1, name := "Checking", balance := -1000
             openingBalanceDate := sampleDate } := by
    decide +kernel
  have hacct' : (serveAll Request.step sampleBatchDb sampleStatesRun).accounts.get? 1 =
      some { id := 1, orgId := 1, accountTypeId := 1, name := "Checking", balance := 2500
             openingBalanceDate := sampleDate } := by
    decide +kernel
  exact balance_sub_eq_of_reconcileRun sampleBatchDb_afterImport hrs hacct hacct'

end Pfv
