import Pfv.Ledger.Effects
import Pfv.Services.Reconciliation

/-!
# What a successful transition did

An accepted transition rewrites one row of the batch and moves the balance of its account by the
change of what the row reports: its signed amount when it is settled and reportable, nothing
otherwise.

## Main definitions

* `Transaction.reportedAmount`: what a row contributes as the reconciliation service sees it.
* `Transitioned tr tx tx'`: the row `tx'` is `tx` after the transition `tr`.

## Main results

* `transitionRow_ok`, `reconcileOne_ok`, `reconcileRequest_ok`.
-/

namespace Pfv

/-- What a row contributes to the balance of its account while it is reportable. -/
def Transaction.reportedAmount (t : Transaction) : ℤ :=
  if t.status = .settled ∧ t.isReportable = true then t.type.signed t.amount else 0

theorem Transaction.isReportable_eq_true {t : Transaction} : t.isReportable = true ↔
    t.linkedTransactionId = none ∧ t.isManualAdjustment = false ∧
      t.reconciliationState ≠ .skipped ∧ t.reconciliationState ≠ .rejected := by
  simp [Transaction.isReportable]

/-- A row after a transition: it keeps its organisation, account, type and status, it is in the
target state, only a match changes its link and only an edit its amount and dates. -/
structure Transitioned (tr : ReconciliationTransition) (tx tx' : Transaction) : Prop where
  frame : tx' = { tx with
    description := tx'.description, categoryId := tx'.categoryId, amount := tx'.amount
    date := tx'.date, settledDate := tx'.settledDate
    linkedTransactionId := tx'.linkedTransactionId
    reconciliationState := tr.toState }
  link_eq : tr.toState ≠ .matched → tx'.linkedTransactionId = tx.linkedTransactionId
  link_of_matched : tr.toState = .matched →
    ∃ m, tr.matchWithTransactionId = some m ∧ m ≠ tx.id ∧ tx'.linkedTransactionId = some m
  amount_eq : tr.toState ≠ .edited → tx'.amount = tx.amount
  unlinked_of_edited : tr.toState = .edited → tr.edits.isSome → tx.linkedTransactionId = none
  amount_pos : tx'.amount = tx.amount ∨ 0 < tx'.amount
  dates : tx'.date = tx.date ∧ tx'.settledDate = tx.settledDate ∨
    tr.toState = .edited ∧ ∃ edits date, tr.edits = some edits ∧ edits.date = some date ∧
      tx'.date = date ∧
      tx'.settledDate = if tx.status = .settled then some date else tx.settledDate

namespace Transitioned

variable {tr : ReconciliationTransition} {tx tx' : Transaction} (h : Transitioned tr tx tx')

include h

theorem id_eq : tx'.id = tx.id := by
  rw [h.frame]

theorem orgId_eq : tx'.orgId = tx.orgId := by
  rw [h.frame]

theorem accountId_eq : tx'.accountId = tx.accountId := by
  rw [h.frame]

theorem type_eq : tx'.type = tx.type := by
  rw [h.frame]

theorem status_eq : tx'.status = tx.status := by
  rw [h.frame]

theorem manual_eq : tx'.isManualAdjustment = tx.isManualAdjustment := by
  rw [h.frame]

theorem batch_eq : tx'.importBatchId = tx.importBatchId := by
  rw [h.frame]

theorem state_eq : tx'.reconciliationState = tr.toState := by
  rw [h.frame]

end Transitioned

namespace Db

theorem credit_credit (db : Db) (a : ℕ) (x y : ℤ) :
    (db.credit a x).credit a y = db.credit a (x + y) := by
  have h : ((db.credit a x).credit a y).accounts = (db.credit a (x + y)).accounts := by
    refine Table.ext ?_ rfl
    simp only [credit, Table.modify, Table.mapRows, List.map_map]
    refine List.map_congr_left fun acct _ => ?_
    by_cases hid : acct.id = a <;> simp [hid, add_assoc]
  calc (db.credit a x).credit a y
      = { db with accounts := ((db.credit a x).credit a y).accounts } := rfl
    _ = { db with accounts := (db.credit a (x + y)).accounts } := by rw [h]
    _ = db.credit a (x + y) := rfl

/-- Rewrite a row and move the balance of its account by the change of what it reports. -/
def restate (db : Db) (t t' : Transaction) : Db :=
  (db.credit t.accountId (t'.reportedAmount - t.reportedAmount)).putTransaction t'

@[simp] theorem restate_transactions (db : Db) (t t' : Transaction) :
    (db.restate t t').transactions = db.transactions.put t' := rfl

theorem get?_restate (db : Db) (t t' : Transaction) (i : ℕ) :
    (db.restate t t').transactions.get? i =
      if i = t'.id then (db.transactions.get? i).map fun _ => t' else db.transactions.get? i :=
  Table.get?_put _ _ _

theorem keepsAccounts_restate (db : Db) (t t' : Transaction) :
    db.KeepsAccounts (db.restate t t') :=
  (keepsAccounts_credit db _ _).trans (.of_eq rfl)

/-- Restating a row moves the drift by the change of what the row reports less the change of what
it weighs; the weights may differ on that row. -/
theorem drift_restate {db : Db} {t t' : Transaction} {k : ℕ} (hk : (db.accounts.get? k).isSome)
    (ht : db.transactions.get? t'.id = some t) (hacc : t'.accountId = t.accountId)
    {w w' : Transaction → ℤ} (hw : ∀ u, u.id ≠ t'.id → w' u = w u) :
    (db.restate t t').drift w' k = db.drift w k +
      if t.accountId = k then (t'.reportedAmount - t.reportedAmount) - (w' t' - w t) else 0 := by
  have hmem : (db.credit t.accountId (t'.reportedAmount - t.reportedAmount)).transactions.get?
      t'.id = some t := ht
  rw [restate, drift_putTransaction_of_eq hmem hw, drift_credit hk, hacc]
  split_ifs <;> ring

end Db

/-! ### The balance of a transition -/

theorem getAccountForUpdate_id {db : Db} {accountId org : ℕ} {a : Account}
    (h : db.account? accountId org = some a) : a.id = accountId :=
  Table.get?_id (Db.account?_eq_some.mp h).1

theorem applyBalanceForTransition_ok {db db' : Db} {org : ℕ} {t : Transaction} {source : Bool}
    (h : applyBalanceForTransition db org t source = .ok db') :
    db' = db.credit t.accountId (t.reportedAmount -
      if t.status = .settled ∧ source = true then t.type.signed t.amount else 0) := by
  unfold applyBalanceForTransition at h
  split_ifs at h with hmoves hsource
  · simp only [bind_eq_ok, getAccountForUpdate_eq_ok, revertBalance_eq_ok] at h
    obtain ⟨acct, hacct, -, rfl⟩ := h
    simp [getAccountForUpdate_id hacct, Transaction.reportedAmount, hmoves.1, hsource,
      show t.isReportable = false by simpa [hsource] using hmoves.2]
  · simp only [bind_eq_ok, getAccountForUpdate_eq_ok, applyBalance_eq_ok] at h
    obtain ⟨acct, hacct, -, rfl⟩ := h
    rw [Bool.not_eq_true] at hsource
    simp [getAccountForUpdate_id hacct, Transaction.reportedAmount, hmoves.1, hsource,
      show t.isReportable = true by simpa [hsource] using hmoves.2]
  · rw [pure_eq_ok] at h
    subst h
    have hzero : t.reportedAmount -
        (if t.status = .settled ∧ source = true then t.type.signed t.amount else 0) = 0 := by
      unfold Transaction.reportedAmount
      by_cases hst : t.status = .settled
      · have hsrc : source = t.isReportable := by
          by_contra hne
          exact hmoves ⟨hst, hne⟩
        simp [hsrc]
      · simp [hst]
    rw [hzero, Db.credit_zero]

theorem applyAmountEdit_ok {db db' : Db} {org : ℕ} {tx : Transaction} {amount : Option Amount}
    (h : applyAmountEdit db org tx amount = .ok db') :
    db' = db.credit tx.accountId (if tx.status = .settled then
      tx.type.signed ((amount.map Amount.cents).getD tx.amount) - tx.type.signed tx.amount
      else 0) := by
  cases amount with
  | none =>
    rw [applyAmountEdit, pure_eq_ok] at h
    simp [h, Db.credit_zero]
  | some a =>
    simp only [applyAmountEdit] at h
    split_ifs at h with hchange
    · simp only [bind_eq_ok, getAccountForUpdate_eq_ok, revertBalance_eq_ok,
        applyBalance_eq_ok] at h
      obtain ⟨acct, hacct, _, ⟨-, rfl⟩, -, rfl⟩ := h
      rw [getAccountForUpdate_id hacct, Db.credit_credit, if_pos hchange.2, neg_add_eq_sub,
        Option.map_some, Option.getD_some]
    · rw [pure_eq_ok] at h
      subst h
      have hzero : (if tx.status = .settled then
          tx.type.signed (((some a).map Amount.cents).getD tx.amount) - tx.type.signed tx.amount
          else 0) = 0 := by
        by_cases hst : tx.status = .settled
        · have hsame : a.cents = tx.amount := by
            by_contra hne
            exact hchange ⟨hne, hst⟩
          simp [hsame]
        · simp [hst]
      rw [hzero, Db.credit_zero]

/-! ### The payload of a transition -/

/-- The edits of a transition find an unlinked row and move its balance by the change of its
amount. -/
theorem applyEdits_ok {db db' : Db} {org : ℕ} {tx tx' : Transaction}
    {edits : Option ReconciliationEdits} (h : applyEdits db org tx edits = .ok (db', tx')) :
    (edits.isSome → tx.linkedTransactionId = none) ∧
      tx' = (edits.map fun e => e.apply tx).getD tx ∧
      db' = db.credit tx.accountId (if tx.status = .settled then
        tx.type.signed tx'.amount - tx.type.signed tx.amount else 0) := by
  cases edits with
  | none =>
    simp only [applyEdits, pure_eq_ok, Prod.mk.injEq] at h
    obtain ⟨rfl, rfl⟩ := h
    simp [Db.credit_zero]
  | some edits =>
    unfold applyEdits at h
    rw [unit_bind_eq_ok, raiseIf_eq_ok, Option.not_isSome_iff_eq_none] at h
    obtain ⟨hunlinked, h⟩ := h
    have hrest : (do
        let db ← applyAmountEdit db org tx edits.amount
        pure (db, edits.apply tx)) = (.ok (db', tx') : Except ServiceError _) := by
      cases hcat : edits.categoryId with
      | none => simpa [hcat] using h
      | some c =>
        simp only [hcat, ↓unit_bind_eq_ok] at h
        exact h.2
    rw [bind_eq_ok] at hrest
    obtain ⟨db₁, hamount, hpure⟩ := hrest
    rw [pure_eq_ok, Prod.mk.injEq] at hpure
    obtain ⟨rfl, rfl⟩ := hpure
    exact ⟨fun _ => hunlinked, rfl, applyAmountEdit_ok hamount⟩

theorem applyMatch_ok {db : Db} {org : ℕ} {tx tx' : Transaction} {matchId : Option ℕ}
    (h : applyMatch db org tx matchId = .ok tx') :
    ∃ m target, matchId = some m ∧ m ≠ tx.id ∧ db.transaction? m org = some target ∧
      tx' = { tx with linkedTransactionId := some m } := by
  cases matchId with
  | none => simp [applyMatch] at h
  | some m =>
    unfold applyMatch at h
    simp only [↓unit_bind_eq_ok, bind_eq_ok, raiseIf_eq_ok, orRaise_eq_ok, pure_eq_ok] at h
    obtain ⟨hne, target, htarget, rfl⟩ := h
    exact ⟨m, target, rfl, hne, htarget, rfl⟩

/-! ### One transition -/

/-- The row a transition leaves: with the edits of a transition to EDITED, with the link of a
transition to MATCHED, in the target state. -/
def ReconciliationTransition.result (tr : ReconciliationTransition) (tx : Transaction) :
    Transaction :=
  { (if tr.toState = .edited then (tr.edits.map fun e => e.apply tx).getD tx else tx) with
    linkedTransactionId :=
      if tr.toState = .matched then tr.matchWithTransactionId else tx.linkedTransactionId
    reconciliationState := tr.toState }

theorem result_of_edited {tr : ReconciliationTransition} (tx : Transaction)
    (hstate : tr.toState = .edited) : tr.result tx =
      { (tr.edits.map fun e => e.apply tx).getD tx with reconciliationState := tr.toState } := by
  have hlink : ((tr.edits.map fun e => e.apply tx).getD tx).linkedTransactionId =
      tx.linkedTransactionId := by
    cases tr.edits <;> rfl
  rw [ReconciliationTransition.result, if_pos hstate, if_neg (by rw [hstate]; decide), ← hlink]

theorem result_of_matched {tr : ReconciliationTransition} (tx : Transaction) {m : ℕ}
    (hstate : tr.toState = .matched) (hm : tr.matchWithTransactionId = some m) : tr.result tx =
      { tx with linkedTransactionId := some m, reconciliationState := tr.toState } := by
  rw [ReconciliationTransition.result, if_neg (by rw [hstate]; decide), if_pos hstate, hm]

theorem result_of_plain {tr : ReconciliationTransition} (tx : Transaction)
    (hedited : tr.toState ≠ .edited) (hmatched : tr.toState ≠ .matched) :
    tr.result tx = { tx with reconciliationState := tr.toState } := by
  rw [ReconciliationTransition.result, if_neg hedited, if_neg hmatched]

/-- A transition to a state other than EDITED and MATCHED rewrites the state alone. -/
theorem transitioned_of_plain {tr : ReconciliationTransition} (tx : Transaction)
    (hedited : tr.toState ≠ .edited) (hmatched : tr.toState ≠ .matched) :
    Transitioned tr tx { tx with reconciliationState := tr.toState } where
  frame := rfl
  link_eq _ := rfl
  link_of_matched h := absurd h hmatched
  amount_eq _ := rfl
  unlinked_of_edited h := absurd h hedited
  amount_pos := .inl rfl
  dates := .inl ⟨rfl, rfl⟩

theorem transitioned_of_edited {tr : ReconciliationTransition} {tx : Transaction}
    (hstate : tr.toState = .edited) (hunlinked : tr.edits.isSome → tx.linkedTransactionId = none) :
    Transitioned tr tx
      { (tr.edits.map fun e => e.apply tx).getD tx with reconciliationState := tr.toState } := by
  cases hedits : tr.edits with
  | none =>
    exact ⟨rfl, fun _ => rfl, fun h => absurd (hstate ▸ h) (by decide), fun _ => rfl,
      fun _ h => hunlinked h, .inl rfl, .inl ⟨rfl, rfl⟩⟩
  | some edits =>
    refine ⟨rfl, fun _ => rfl, fun h => absurd (hstate ▸ h) (by decide),
      fun h => absurd hstate h, fun _ h => hunlinked h, ?_, ?_⟩
    · cases hamount : edits.amount with
      | none => exact .inl (by simp [ReconciliationEdits.apply, hamount])
      | some a => exact .inr (by simpa [ReconciliationEdits.apply, hamount] using a.pos)
    · cases hdate : edits.date with
      | none => exact .inl (by simp [ReconciliationEdits.apply, hdate])
      | some date =>
        exact .inr ⟨hstate, edits, date, hedits, hdate, by simp [ReconciliationEdits.apply, hdate]⟩

theorem transitioned_of_matched {tr : ReconciliationTransition} {tx : Transaction} {m : ℕ}
    (hstate : tr.toState = .matched) (hm : tr.matchWithTransactionId = some m) (hne : m ≠ tx.id) :
    Transitioned tr tx
      { tx with linkedTransactionId := some m, reconciliationState := tr.toState } where
  frame := rfl
  link_eq h := absurd hstate h
  link_of_matched _ := ⟨m, hm, hne, rfl⟩
  amount_eq _ := rfl
  unlinked_of_edited h := absurd (hstate ▸ h) (by decide)
  amount_pos := .inl rfl
  dates := .inl ⟨rfl, rfl⟩

/-- An edit that finds the row unlinked keeps it reportable. -/
theorem isReportable_of_edited {tx tx' : Transaction} {tr : ReconciliationTransition}
    (htr : Transitioned tr tx tx') (hstate : tr.toState = .edited)
    (hallowed : tr.toState ∈ allowedTransitions tx.reconciliationState)
    (hmanual : tx.isManualAdjustment = false) (hunlinked : tx.linkedTransactionId = none) :
    tx.isReportable = true ∧ tx'.isReportable = true := by
  rw [Transaction.isReportable_eq_true, Transaction.isReportable_eq_true, htr.state_eq,
    htr.manual_eq, htr.link_eq (by simp [hstate]), hstate]
  refine ⟨⟨hunlinked, hmanual, ?_⟩, hunlinked, hmanual, by simp⟩
  rw [hstate] at hallowed
  cases hs : tx.reconciliationState <;> simp_all [allowedTransitions]

/-- An edit moves the balance by the change of the amount first and by the change of reportability
then; both together are the change of what the row reports. -/
theorem restate_of_edited {db : Db} {tx tx' : Transaction} {tr : ReconciliationTransition}
    (htr : Transitioned tr tx tx') (hstate : tr.toState = .edited)
    (hallowed : tr.toState ∈ allowedTransitions tx.reconciliationState)
    (hmanual : tx.isManualAdjustment = false)
    (hunlinked : tx.linkedTransactionId = none ∨ tx'.amount = tx.amount) :
    (((db.credit tx.accountId (if tx.status = .settled then
        tx.type.signed tx'.amount - tx.type.signed tx.amount else 0)).credit tx'.accountId
      (tx'.reportedAmount - if tx'.status = .settled ∧ tx.isReportable = true then
        tx'.type.signed tx'.amount else 0)).putTransaction tx') = db.restate tx tx' := by
  rw [htr.accountId_eq, Db.credit_credit, Db.restate]
  congr 2
  simp only [Transaction.reportedAmount, htr.status_eq, htr.type_eq]
  rcases hunlinked with hlink | hamount
  · obtain ⟨hrep, hrep'⟩ := isReportable_of_edited htr hstate hallowed hmanual hlink
    simp only [hrep, hrep', and_true]
    split_ifs <;> ring
  · rw [hamount]
    split_ifs <;> ring

/-- What a successful transition did to a row that is not a manual adjustment. -/
theorem transitionRow_ok {db db' : Db} {org : ℕ} {batch batch' : ImportBatch} {tx : Transaction}
    {tr : ReconciliationTransition} (hmanual : tx.isManualAdjustment = false)
    (h : transitionRow db org batch tx tr = .ok (db', batch')) :
    tr.toState ∈ allowedTransitions tx.reconciliationState ∧
      batch' = batch.countTransition tx.reconciliationState tr.toState ∧
      Transitioned tr tx (tr.result tx) ∧ db' = db.restate tx (tr.result tx) ∧
      (tr.toState = .matched → ∃ m target, (tr.result tx).linkedTransactionId = some m ∧
        db.transaction? m org = some target) := by
  unfold transitionRow validateTransition at h
  simp only [↓unit_bind_eq_ok, bind_eq_ok, raiseIf_eq_ok, Prod.exists, saveTransaction_eq_ok,
    pure_eq_ok, Prod.mk.injEq, not_not] at h
  obtain ⟨hallowed, db₁, edited, hpayload, db₂, hbalance, _, ⟨-, rfl⟩, rfl, rfl⟩ := h
  refine ⟨hallowed, rfl, ?_⟩
  have hbal := applyBalanceForTransition_ok hbalance
  unfold applyPayload at hpayload
  split at hpayload
  · next hstate =>
    obtain ⟨hunlinked, rfl, hdb₁⟩ := applyEdits_ok hpayload
    have htr := transitioned_of_edited hstate hunlinked
    rw [result_of_edited tx hstate]
    refine ⟨htr, ?_, fun h => absurd (hstate ▸ h) (by decide)⟩
    rw [hbal, hdb₁]
    refine restate_of_edited htr hstate hallowed hmanual ?_
    cases hedits : tr.edits with
    | none => exact .inr rfl
    | some edits => exact .inl (hunlinked (by simp [hedits]))
  · next hstate =>
    simp only [bind_eq_ok, pure_eq_ok, Prod.mk.injEq] at hpayload
    obtain ⟨_, hmatch, rfl, rfl⟩ := hpayload
    obtain ⟨m, target, hm, hne, htarget, rfl⟩ := applyMatch_ok hmatch
    rw [result_of_matched tx hstate hm]
    exact ⟨transitioned_of_matched hstate hm hne, by rw [hbal]; rfl,
      fun _ => ⟨m, target, rfl, htarget⟩⟩
  · next hedited hmatched =>
    rw [pure_eq_ok, Prod.mk.injEq] at hpayload
    obtain ⟨rfl, rfl⟩ := hpayload
    rw [result_of_plain tx hedited hmatched]
    exact ⟨transitioned_of_plain tx hedited hmatched, by rw [hbal]; rfl, fun h => absurd h hmatched⟩

/-- One item of a request: the row is in the batch, and it is in the target state already or is
rewritten by the row that the transition leaves. -/
theorem reconcileOne_result {s s' : Db × ImportBatch} {org : ℕ} {tr : ReconciliationTransition}
    (hmanual : ∀ tx, s.1.transaction? tr.transactionId org = some tx →
      tx.importBatchId = some s.2.id → tx.isManualAdjustment = false)
    (h : reconcileOne org s tr = .ok s') :
    ∃ tx, s.1.transaction? tr.transactionId org = some tx ∧ tx.importBatchId = some s.2.id ∧
      (tx.reconciliationState = tr.toState ∧ s' = s ∨
        tx.reconciliationState ≠ tr.toState ∧
        tr.toState ∈ allowedTransitions tx.reconciliationState ∧
        Transitioned tr tx (tr.result tx) ∧
        s' = (s.1.restate tx (tr.result tx),
          s.2.countTransition tx.reconciliationState tr.toState) ∧
        (tr.toState = .matched → ∃ m target, (tr.result tx).linkedTransactionId = some m ∧
          s.1.transaction? m org = some target)) := by
  unfold reconcileOne at h
  simp only [↓unit_bind_eq_ok, bind_eq_ok, orRaise_eq_ok, raiseIf_eq_ok, not_not] at h
  obtain ⟨-, tx, htx, hbatch, h⟩ := h
  refine ⟨tx, htx, hbatch, ?_⟩
  split_ifs at h with hself
  · exact .inl ⟨hself, (pure_eq_ok.mp h).symm⟩
  · obtain ⟨hallowed, hcount, htr, hdb, hmatch⟩ := transitionRow_ok (hmanual tx htx hbatch) h
    exact .inr ⟨hself, hallowed, htr, Prod.ext hdb hcount, hmatch⟩

/-- One item of a request: the row is in the batch, and it is in the target state already or was
transitioned. -/
theorem reconcileOne_ok {s s' : Db × ImportBatch} {org : ℕ} {tr : ReconciliationTransition}
    (hmanual : ∀ tx, s.1.transaction? tr.transactionId org = some tx →
      tx.importBatchId = some s.2.id → tx.isManualAdjustment = false)
    (h : reconcileOne org s tr = .ok s') :
    ∃ tx, s.1.transaction? tr.transactionId org = some tx ∧ tx.importBatchId = some s.2.id ∧
      (tx.reconciliationState = tr.toState ∧ s' = s ∨
        tx.reconciliationState ≠ tr.toState ∧
        tr.toState ∈ allowedTransitions tx.reconciliationState ∧
        ∃ tx', Transitioned tr tx tx' ∧
          s' = (s.1.restate tx tx', s.2.countTransition tx.reconciliationState tr.toState) ∧
          (tr.toState = .matched → ∃ m target, tx'.linkedTransactionId = some m ∧
            s.1.transaction? m org = some target)) := by
  obtain ⟨tx, htx, hbatch, hself | ⟨hne, hallowed, htr, hs, hmatch⟩⟩ :=
    reconcileOne_result hmanual h
  · exact ⟨tx, htx, hbatch, .inl hself⟩
  · exact ⟨tx, htx, hbatch, .inr ⟨hne, hallowed, _, htr, hs, hmatch⟩⟩

@[simp] theorem closeBatchIfComplete_id (db : Db) (b : ImportBatch) :
    (closeBatchIfComplete db b).id = b.id := by
  unfold closeBatchIfComplete
  split_ifs <;> rfl

theorem reconcileRequest_ok {db db' : Db} {org batchId : ℕ} {request : ReconcileBatchRequest}
    {response : ReconcileBatchResponse}
    (h : reconcileRequest db org batchId request = .ok (db', response)) :
    ∃ batch db₁ batch₁, db.importBatch? batchId org = some batch ∧
      request.transitions.foldlM (reconcileOne org) (db, batch) = .ok (db₁, batch₁) ∧
      db' = { db₁ with
        importBatches := db₁.importBatches.put (closeBatchIfComplete db₁ batch₁) } := by
  unfold reconcileRequest at h
  simp only [bind_eq_ok, orRaise_eq_ok, Prod.exists, pure_eq_ok, Prod.mk.injEq] at h
  obtain ⟨batch, hbatch, db₁, batch₁, hloop, rfl, -⟩ := h
  exact ⟨batch, db₁, batch₁, hbatch, hloop, rfl⟩

end Pfv
