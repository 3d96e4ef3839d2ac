import Pfv.Services.Balance

/-!
# Reconciliation

The state machine of post-import reconciliation (`backend/app/services/reconciliation_service.py`):
the creation of a batch and the requests that move its rows from state to state. The balance of an
account follows the reportability of the row: a transition takes the amount of the row off the
balance when the row stops being reportable and puts it back when it starts to be.

## Main definitions

* `allowedTransitions`, `ReconciliationState.isPending`.
* `createImportBatch`.
* `applyEdits`, `applyMatch`, `applyBalanceForTransition`, `reconcileOne`.
* `closeBatchIfComplete`, `reconcileRequest`.
-/

namespace Pfv

/-! ### States -/

/-- Allowed state transitions. -/
def allowedTransitions : ReconciliationState → List ReconciliationState
  | .pendingReview => [.matched, .edited, .skipped, .accepted, .rejected]
  | .unmatched => [.matched, .edited, .skipped, .accepted, .rejected]
  | .matched => [.accepted]
  | .edited => [.accepted]
  | .accepted => [.pendingReview]
  | .skipped => []
  | .rejected => []

/-- States that count toward the `pending_count` of a batch. -/
def ReconciliationState.isPending : ReconciliationState → Bool
  | .pendingReview => true
  | .unmatched => true
  | _ => false

/-! ### Batch creation -/

/-- Link a row to the batch it was imported in. -/
def Transaction.assignBatch (ids : List ℕ) (org batchId : ℕ) (t : Transaction) : Transaction :=
  if t.id ∈ ids ∧ t.orgId = org then { t with importBatchId := some batchId } else t

/-- Store a batch and link the imported transactions to it. Confirmed rows land accepted, so the
batch opens with every row accepted and none pending. -/
def createImportBatch (db : Db) (org userId accountId : ℕ) (sourceFormat : ImportSourceFormat)
    (fileName : String) (ids : List ℕ) : Except ServiceError (Db × ℕ) := do
  raiseIf (ids = []) (.validation "create_import_batch called with empty transaction_ids")
  let batch : ImportBatch :=
    { orgId := org, accountId := accountId, sourceFormat := sourceFormat, fileName := fileName
      createdByUserId := userId, status := .opened, rowCount := ids.length
      acceptedCount := ids.length, pendingCount := 0 }
  let batchId := db.importBatches.next
  pure
    ({ db with
        importBatches := db.importBatches.insert batch
        transactions := db.transactions.mapRows (Transaction.assignBatch ids org batchId)
          fun t => by
            unfold Transaction.assignBatch
            split_ifs <;> rfl },
      batchId)

/-! ### Validation of a transition -/

/-- EDITED requires edits, MATCHED requires a match target, every other target forbids both. -/
def validatePayloadShape (transition : ReconciliationTransition) : Except ServiceError Unit :=
  match transition.toState with
  | .edited => do
      raiseIf (transition.edits.isNone = true) (.validation "EDITED transition requires 'edits'")
      raiseIf (transition.matchWithTransactionId.isSome = true)
        (.validation "EDITED transition does not accept 'match_with_transaction_id'")
  | .matched => do
      raiseIf (transition.matchWithTransactionId.isNone = true)
        (.validation "MATCHED transition requires 'match_with_transaction_id'")
      raiseIf (transition.edits.isSome = true)
        (.validation "MATCHED transition does not accept 'edits'")
  | target => do
      raiseIf (transition.edits.isSome = true)
        (.validation (target.value.toUpper ++ " transition does not accept 'edits'"))
      raiseIf (transition.matchWithTransactionId.isSome = true)
        (.validation (target.value.toUpper ++
          " transition does not accept 'match_with_transaction_id'"))

def validateTransition (sourceState targetState : ReconciliationState) :
    Except ServiceError Unit :=
  raiseIf (targetState ∉ allowedTransitions sourceState)
    (.conflict ("reconciliation transition not allowed: " ++ sourceState.value ++ " -> " ++
      targetState.value))

/-! ### A single row -/

/-- The row after the field edits of a transition. A settled row mirrors its date to the settled
date. -/
def ReconciliationEdits.apply (edits : ReconciliationEdits) (tx : Transaction) : Transaction :=
  { tx with
    description := edits.description.getD tx.description
    categoryId := edits.categoryId.getD tx.categoryId
    amount := (edits.amount.map Amount.cents).getD tx.amount
    date := edits.date.getD tx.date
    settledDate :=
      if edits.date.isSome ∧ tx.status = .settled then edits.date else tx.settledDate }

/-- Move the balance of a settled row from its old amount to the edited one. -/
def applyAmountEdit (db : Db) (org : ℕ) (tx : Transaction) :
    Option Amount → Except ServiceError Db
  | none => pure db
  | some amount =>
      if amount.cents ≠ tx.amount ∧ tx.status = .settled then do
        let acct ← getAccountForUpdate db tx.accountId org
        let db ← revertBalance db acct.id tx.amount tx.type
        applyBalance db acct.id amount.cents tx.type
      else pure db

/-- Apply the edits of a transition to a row. A transfer leg is refused: its partner would
drift. -/
def applyEdits (db : Db) (org : ℕ) (tx : Transaction) :
    Option ReconciliationEdits → Except ServiceError (Db × Transaction)
  | none => pure (db, tx)
  | some edits => do
      raiseIf (tx.linkedTransactionId.isSome = true)
        (.validation ("Cannot edit a transfer leg from the reconciliation inbox; " ++
          "edit via the transactions page."))
      match edits.categoryId with
      | none => pure ()
      | some categoryId => validateCategoryForType db categoryId org tx.type
      let db ← applyAmountEdit db org tx edits.amount
      pure (db, edits.apply tx)

/-- Validate the match target and link it on the row. The link is one-directional: the target is
not written. -/
def applyMatch (db : Db) (org : ℕ) (tx : Transaction) :
    Option ℕ → Except ServiceError Transaction
  | none => .error (.validation "MATCHED transition requires 'match_with_transaction_id'")
  | some matchId => do
      raiseIf (matchId = tx.id)
        (.validation "MATCHED target must differ from the transaction itself")
      let _ ← orRaise (db.transaction? matchId org) (.notFound "Match target transaction")
      pure { tx with linkedTransactionId := some matchId }

/-- The payload of a transition, before the state is set. -/
def applyPayload (db : Db) (org : ℕ) (tx : Transaction) (transition : ReconciliationTransition) :
    Except ServiceError (Db × Transaction) :=
  match transition.toState with
  | .edited => applyEdits db org tx transition.edits
  | .matched => do
      let tx ← applyMatch db org tx transition.matchWithTransactionId
      pure (db, tx)
  | _ => pure (db, tx)

/-- Revert or re-apply the contribution of a settled row whose reportability changed. -/
def applyBalanceForTransition (db : Db) (org : ℕ) (tx : Transaction) (sourceReportable : Bool) :
    Except ServiceError Db :=
  if tx.status = .settled ∧ sourceReportable ≠ tx.isReportable then do
    let acct ← getAccountForUpdate db tx.accountId org
    if sourceReportable = true then revertBalance db acct.id tx.amount tx.type
    else applyBalance db acct.id tx.amount tx.type
  else pure db

/-- The counters of a batch after a row went from one state to another. -/
def ImportBatch.countTransition (batch : ImportBatch)
    (sourceState targetState : ReconciliationState) : ImportBatch :=
  { batch with
    pendingCount :=
      if sourceState.isPending = true ∧ targetState.isPending = false then
        max 0 (batch.pendingCount - 1)
      else if sourceState.isPending = false ∧ targetState.isPending = true then
        batch.pendingCount + 1
      else batch.pendingCount
    acceptedCount :=
      if sourceState = .accepted ∧ targetState ≠ .accepted then max 0 (batch.acceptedCount - 1)
      else if sourceState ≠ .accepted ∧ targetState = .accepted then batch.acceptedCount + 1
      else batch.acceptedCount }

/-- Apply one transition to a row of the batch whose state differs from the target. -/
def transitionRow (db : Db) (org : ℕ) (batch : ImportBatch) (tx : Transaction)
    (transition : ReconciliationTransition) : Except ServiceError (Db × ImportBatch) := do
  validateTransition tx.reconciliationState transition.toState
  let (db, edited) ← applyPayload db org tx transition
  let moved := { edited with reconciliationState := transition.toState }
  let db ← applyBalanceForTransition db org moved tx.isReportable
  let db ← saveTransaction db moved
  pure (db, batch.countTransition tx.reconciliationState transition.toState)

/-- Apply one transition. A transition to the state the row is in does nothing. -/
def reconcileOne (org : ℕ) (s : Db × ImportBatch) (transition : ReconciliationTransition) :
    Except ServiceError (Db × ImportBatch) := do
  validatePayloadShape transition
  let tx ← orRaise (s.1.transaction? transition.transactionId org) (.notFound "Transaction")
  raiseIf (tx.importBatchId ≠ some s.2.id)
    (.validation ("transaction " ++ toString tx.id ++ " does not belong to batch " ++
      toString s.2.id))
  if tx.reconciliationState = transition.toState then pure s
  else transitionRow s.1 org s.2 tx transition

/-! ### Requests -/

/-- The number of rows of a batch in a pending state. -/
def pendingRows (db : Db) (batchId : ℕ) : ℕ :=
  db.transactions.rows.countP fun t =>
    t.importBatchId = some batchId ∧ t.reconciliationState.isPending = true

/-- Close a batch when no row is in a pending state. The counter is checked against the rows, and
set to their number when it drifted. -/
def closeBatchIfComplete (db : Db) (batch : ImportBatch) : ImportBatch :=
  if batch.status = .closed then batch
  else if 0 < batch.pendingCount then batch
  else if 0 < pendingRows db batch.id then { batch with pendingCount := pendingRows db batch.id }
  else { batch with status := .closed }

/-- Apply every transition of a request atomically. -/
def reconcileRequest (db : Db) (org batchId : ℕ) (request : ReconcileBatchRequest) :
    Except ServiceError (Db × ReconcileBatchResponse) := do
  let batch ← orRaise (db.importBatch? batchId org) (.notFound "ImportBatch")
  let (db, batch) ← request.transitions.foldlM (reconcileOne org) (db, batch)
  let batch := closeBatchIfComplete db batch
  pure
    ({ db with importBatches := db.importBatches.put batch },
      { importId := batch.id
        transitioned := request.transitions.map (·.transactionId)
        remainingPending := batch.pendingCount
        batchStatus := batch.status })

end Pfv
