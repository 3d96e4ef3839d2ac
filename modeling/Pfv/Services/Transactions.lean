import Pfv.Services.Balance

/-!
# Transactions

Creating, editing and deleting single transactions and promoting them to recurring templates
(`backend/app/services/transaction_service.py`, "CRUD operations"). Each of the operations that
discover a linked row by an unlocked read is split into that preview and the step that runs once
the rows are locked; the operation itself is the two in sequence. The best-effort learning of
category rules after the commit touches no ledger table and is left out.

## Main definitions

* `createTransactionNoCommit`, `createTransaction`.
* `pairPreview`, `updateTransactionLocked`, `updateTransaction`.
* `promoteToRecurring`.
* `deleteTransactionLocked`, `deleteTransaction`.
* `bulkDeletePreview`, `bulkDeleteLocked`, `bulkDeleteTransactions`.
-/

namespace Pfv

/-! ### Create -/

/-- The row stored for a request. A settled row without a settled date gets its date. -/
def TransactionCreate.row (body : TransactionCreate) (org : ℕ)
    (isImported isManualAdjustment : Bool) (fitid : Option String) : Transaction where
  orgId := org
  accountId := body.accountId
  categoryId := body.categoryId
  description := body.description.text
  amount := body.amount.cents
  type := body.type.toTransactionType
  status := body.status
  date := body.date
  settledDate :=
    if body.status = .settled then some (body.settledDate.getD body.date) else body.settledDate
  isImported := isImported
  isManualAdjustment := isManualAdjustment
  fitid := fitid

/-- Internal create primitive that flushes but does not commit. -/
def createTransactionNoCommit (db : Db) (org : ℕ) (body : TransactionCreate)
    (isImported isManualAdjustment : Bool) (fitid : Option String) :
    Except ServiceError (Db × Transaction) := do
  validateAccount db body.accountId org
  validateCategoryForType db body.categoryId org body.type.toTransactionType
  let db ← postSettled db org (body.row org isImported isManualAdjustment fitid)
  insertPosted db (body.row org isImported isManualAdjustment fitid)

def createTransaction (db : Db) (org : ℕ) (body : TransactionCreate) (isImported : Bool) :
    Except ServiceError (Db × Transaction) :=
  createTransactionNoCommit db org body isImported false none

/-! ### Update -/

/-- The unlocked read of a row: the ids to lock are the row's own and that of the row it is
linked to. -/
def pairPreview (db : Db) (org id : ℕ) : Except ServiceError (List ℕ) := do
  let preview ← orRaise (db.transaction? id org) (.notFound "Transaction")
  pure (id :: preview.linkedTransactionId.toList)

/-- The settled date after an update. A settled row keeps one: the given date, today on a
transition, else the one it has. On a pending row the date is an expectation that the request may
set, clear or, by leaving the key out, keep; a transition to pending clears it. -/
def resolveSettledDate (tx : Transaction) (body : TransactionUpdate) (today : Date) :
    Option Date :=
  match body.status.getD tx.status with
  | .settled =>
      match body.settledDate.join with
      | some d => some d
      | none => if tx.status = .settled then tx.settledDate else some today
  | .pending =>
      match body.settledDate with
      | some d => d
      | none => if body.status.isSome ∧ tx.status = .settled then none else tx.settledDate

/-- The row after the field updates of a request. -/
def editTransaction (tx : Transaction) (body : TransactionUpdate) (today : Date) : Transaction :=
  { tx with
    accountId := body.accountId.getD tx.accountId
    categoryId := body.categoryId.getD tx.categoryId
    description := body.description.getD tx.description
    amount := (body.amount.map Amount.cents).getD tx.amount
    type := (body.type.map EntryType.toTransactionType).getD tx.type
    status := body.status.getD tx.status
    date := body.date.getD tx.date
    settledDate := resolveSettledDate tx body today }

/-- The guards on an edit of a transfer leg: its type is fixed, and a new account must differ from
the partner's and have the partner's currency. -/
def checkLinkedEdit (db : Db) (org : ℕ) (body : TransactionUpdate) (partner : Transaction) :
    Except ServiceError Unit := do
  raiseIf (body.type.isSome = true) (.validation "Type is immutable on transfer legs")
  match body.accountId with
  | none => pure ()
  | some a => do
      let newAcct ← orRaise (db.account? a org) (.validation "Account not found")
      raiseIf (newAcct.id = partner.accountId)
        (.validation "Account must differ from partner's account")
      raiseIf (some newAcct.currency ≠ db.currencyOf partner.accountId)
        (.validation "New account currency must match partner's currency")

/-- The guards on the references of an edit, for a transfer leg and for a plain row. -/
def checkReferences (db : Db) (org : ℕ) (body : TransactionUpdate) (tx : Transaction) :
    Option Transaction → Except ServiceError Unit
  | some partner => checkLinkedEdit db org body partner
  | none =>
      match body.accountId with
      | none => pure ()
      | some a => if a = tx.accountId then pure () else validateAccount db a org

/-- The category check fires when the category or the type is being changed, on the resulting
pair. -/
def checkCategoryEdit (db : Db) (org : ℕ) (body : TransactionUpdate) (edited : Transaction) :
    Except ServiceError Unit :=
  if body.categoryId.isSome ∨ body.type.isSome then
    validateCategoryForType db edited.categoryId org edited.type
  else pure ()

/-- The accounts whose balances an edit may move. -/
def affectedAccounts (tx edited : Transaction) (mirror : Option (Transaction × Transaction)) :
    List ℕ :=
  (if tx.status = .settled ∨ edited.status = .settled then [tx.accountId, edited.accountId]
    else []) ++
  match mirror with
  | some (p, _) => if p.status = .settled then [p.accountId] else []
  | none => []

/-- The partner before and after an edit that changes the amount, which is mirrored to it. A row
linked to itself is one object, so its partner after the edit is the edited row. -/
def mirrorOf (body : TransactionUpdate) (edited : Transaction) (partner : Option Transaction) :
    Option (Transaction × Transaction) :=
  match partner, body.amount with
  | some p, some amount =>
      some (p, { (if p.id = edited.id then edited else p) with amount := amount.cents })
  | _, _ => none

/-- Revert the old rows, write the edited ones and apply them. -/
def writeEdit (db : Db) (tx edited : Transaction) (mirror : Option (Transaction × Transaction)) :
    Except ServiceError Db := do
  let db ← revertSettled db tx
  let db ← match mirror with
    | some (p, _) => revertSettled db p
    | none => pure db
  raiseIf (edited.settledDate.any (· < edited.date) = true)
    (.validation "settled_date must be on or after date")
  let db ← saveTransaction db edited
  let db ← match mirror with
    | some (_, p) => saveTransaction db p
    | none => pure db
  let db ← applySettled db edited
  match mirror with
  | some (_, p) => applySettled db p
  | none => pure db

/-- The re-check of the pair after an edit of one leg. The relationship `tx.account` still holds
the account loaded before the edit. -/
def checkPairAfterEdit (db : Db) (tx edited : Transaction) (partner : Transaction) :
    Except ServiceError Unit := do
  raiseIf (edited.orgId ≠ partner.orgId) (.validation "Pair org mismatch after edit")
  raiseIf (edited.accountId = partner.accountId) (.validation "Pair on same account after edit")
  raiseIf (|edited.amount| ≠ |partner.amount|) (.validation "Pair amount mismatch after edit")
  raiseIf (¬((edited.type = .expense ∧ partner.type = .income) ∨
      (edited.type = .income ∧ partner.type = .expense)))
    (.validation "Pair must have opposite types after edit")
  raiseIf (db.currencyOf tx.accountId ≠ db.currencyOf partner.accountId)
    (.validation "Pair currencies differ after edit")

/-- The part of an update that runs once the rows with the given ids are locked. -/
def updateTransactionLocked (db : Db) (org id : ℕ) (body : TransactionUpdate) (today : Date)
    (ids : List ℕ) : Except ServiceError (Db × Transaction) := do
  let rows := db.lockRows org ids
  let tx ← orRaise (rowsGet rows id) (.notFound "Transaction")
  raiseIf (tx.isManualAdjustment = true)
    (.validation "Manual balance adjustments cannot be edited")
  -- A concurrent pairing may have linked the row after the preview.
  raiseIf (tx.linkedTransactionId.any (fun l => (rowsGet rows l).isNone) = true)
    (.conflict "Transaction state changed; refresh and retry")
  let partner := tx.linkedTransactionId.bind (rowsGet rows)
  raiseIf (partner.any (fun p => p.linkedTransactionId ≠ some tx.id) = true)
    (.conflict "Transfer pair link integrity violated; refresh and retry")
  checkReferences db org body tx partner
  let edited := editTransaction tx body today
  checkCategoryEdit db org body edited
  let mirror := mirrorOf body edited partner
  lockAccounts db org (affectedAccounts tx edited mirror)
  let db' ← writeEdit db tx edited mirror
  match partner with
  | none => pure ()
  | some p =>
      checkPairAfterEdit db tx edited
        ((mirror.map Prod.snd).getD (if p.id = edited.id then edited else p))
  pure (db', edited)

/-- Edit a transaction. The amount of a transfer leg is mirrored to its partner; its type and link
are immutable. -/
def updateTransaction (db : Db) (org id : ℕ) (body : TransactionUpdate) (today : Date) :
    Except ServiceError (Db × Transaction) := do
  let ids ← pairPreview db org id
  updateTransactionLocked db org id body today ids

/-! ### Promote -/

/-- Promote an existing transaction into a recurring template. -/
def promoteToRecurring (db : Db) (org id : ℕ) (body : PromoteToRecurringRequest) (today : Date) :
    Except ServiceError (Db × Transaction) := do
  raiseIf (body.nextDueDate < today) (.validation "Date must be today or later")
  let tx ← orRaise (db.transaction? id org) (.notFound "Transaction")
  raiseIf (tx.linkedTransactionId.isSome = true)
    (.validation "Cannot promote a transfer leg to recurring")
  raiseIf (tx.isManualAdjustment = true)
    (.validation "Cannot promote a manual balance adjustment to recurring")
  raiseIf (tx.recurringId.isSome = true)
    (.validation "Transaction is already linked to a recurring template")
  let type ← orRaise tx.type.toEntryType? (.database "recurring_transactions")
  let template : RecurringTransaction :=
    { orgId := org, accountId := tx.accountId, categoryId := tx.categoryId
      description := tx.description, amount := tx.amount, type := type
      frequency := body.frequency, nextDueDate := body.nextDueDate
      autoSettle := body.autoSettle, isActive := true }
  let promoted := { tx with recurringId := some db.recurring.next }
  let db' ← saveTransaction { db with recurring := db.recurring.insert template } promoted
  pure (db', promoted)

/-! ### Delete -/

/-- Take the deleted rows off the balances. Both accounts of a pair are locked in order of id. -/
def revertDeleted (db : Db) (org : ℕ) (tx : Transaction) :
    Option Transaction → Except ServiceError Db
  | some linkedTx =>
      if tx.status = .settled then do
        lockAccounts db org
          [min tx.accountId linkedTx.accountId, max tx.accountId linkedTx.accountId]
        let db ← revertBalance db tx.accountId tx.amount tx.type
        revertBalance db linkedTx.accountId linkedTx.amount linkedTx.type
      else pure db
  | none =>
      if tx.status = .settled then do
        lockAccounts db org [tx.accountId]
        revertBalance db tx.accountId tx.amount tx.type
      else pure db

/-- The part of a delete that runs once the rows with the given ids are locked. -/
def deleteTransactionLocked (db : Db) (org id : ℕ) (ids : List ℕ) : Except ServiceError Db := do
  let rows := db.lockRows org ids
  let tx ← orRaise (rowsGet rows id) (.notFound "Transaction")
  raiseIf (tx.isManualAdjustment = true)
    (.validation "Manual balance adjustments cannot be deleted")
  let linkedTx := tx.linkedTransactionId.bind (rowsGet rows)
  let db ← revertDeleted db org tx linkedTx
  pure (db.deleteTransactions ((linkedTx.toList.map (·.id)) ++ [tx.id]))

def deleteTransaction (db : Db) (org id : ℕ) : Except ServiceError Db := do
  let ids ← pairPreview db org id
  deleteTransactionLocked db org id ids

/-- The unlocked read of a bulk delete: the requested rows and the rows they are linked to. -/
def bulkDeletePreview (db : Db) (org : ℕ) (requested : List ℕ) : List ℕ :=
  let preview := db.lockRows org requested
  preview.map (·.id) ++ preview.filterMap (·.linkedTransactionId)

/-- The part of a bulk delete that runs once the rows with the given ids are locked. Manual
balance adjustments are skipped. -/
def bulkDeleteLocked (db : Db) (org : ℕ) (requested ids : List ℕ) :
    Except ServiceError (Db × ℕ × List ℕ) := do
  let locked := db.lockRows org ids
  let skippedIds := requested.filter (· ∉ locked.map (·.id)) ++
    ((locked.filter (·.isManualAdjustment)).map (·.id)).filter (· ∈ requested)
  let found := locked.filter (!·.isManualAdjustment)
  lockAccounts db org ((found.filter (·.status = .settled)).map (·.accountId))
  let db ← found.foldlM revertSettled db
  pure (db.deleteTransactions (found.map (·.id)), found.length, skippedIds)

/-- Delete multiple transactions in one atomic commit. Returns the number of deleted rows and the
ids that were skipped. -/
def bulkDeleteTransactions (db : Db) (org : ℕ) (ids : List ℕ) :
    Except ServiceError (Db × ℕ × List ℕ) :=
  let requested := ids.eraseDups
  let allIds := bulkDeletePreview db org requested
  if allIds = [] then pure (db, 0, requested) else bulkDeleteLocked db org requested allIds

end Pfv
