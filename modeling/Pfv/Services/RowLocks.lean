import Pfv.Base.LockOrder
import Pfv.Services.Import
import Pfv.Services.Recurring

/-!
# Row locks

The explicit `FOR UPDATE` locks on transactions and accounts that the operations of the ledger take
(`backend/app/services/transaction_service.py`, `import_service.py`, `recurring_service.py`). The
rule is: transaction rows before account rows, and rows of one kind by ascending id. An operation
on one row or pair previews the rows, locks them, reads them again and locks the accounts. An import
locks row by row and a generation template by template, and both keep what they have locked: rolling
back a savepoint releases no row.

A lock is taken only on a row that exists when it is reached. An import decides with what it has
read and written itself. What an operation writes appears at its commit; the locks on the templates
of a generation are not among those modelled.

## Main definitions

* `LockRow`: a transaction or an account, in the order of the rule.
* `lockTransactionRows`, `lockAccountRows`: lock rows one after another.
* `LedgerRequest`, `LedgerRequest.program`: the requests and the locks that they take.
-/

namespace Pfv

/-! ### Rows -/

inductive LockRow
  | transaction (id : ℕ)
  | account (id : ℕ)

namespace LockRow

/-- The place of a row in the order: transactions first, then by id. -/
def rank : LockRow → ℕ ×ₗ ℕ
  | .transaction id => toLex (0, id)
  | .account id => toLex (1, id)

theorem rank_injective : Function.Injective rank := by
  intro a b h
  cases a <;> cases b <;> simp_all [rank]

instance : LinearOrder LockRow := LinearOrder.lift' rank rank_injective

theorem transaction_lt_account (t a : ℕ) : transaction t < account a :=
  Prod.Lex.toLex_lt_toLex.mpr (.inl Nat.zero_lt_one)

theorem transaction_lt_transaction {t u : ℕ} (h : t < u) : transaction t < transaction u :=
  Prod.Lex.toLex_lt_toLex.mpr (.inr ⟨rfl, h⟩)

theorem account_lt_account {a b : ℕ} (h : a < b) : account a < account b :=
  Prod.Lex.toLex_lt_toLex.mpr (.inr ⟨rfl, h⟩)

end LockRow

/-! ### Locking rows -/

abbrev LedgerLocker := Locker Db LockRow

/-- `SELECT … WHERE id IN (…) ORDER BY id FOR UPDATE`: the rows that exist are locked. -/
def lockTransactionRows (org : ℕ) (next : LedgerLocker) : List ℕ → LedgerLocker
  | [] => next
  | id :: ids => .read fun db =>
      if (db.transaction? id org).isSome then
        .lock (.transaction id) (lockTransactionRows org next ids)
      else lockTransactionRows org next ids

/-- `get_account_for_update` one account after another; an account that does not exist fails. -/
def lockAccountRows (org : ℕ) (next failed : LedgerLocker) : List ℕ → LedgerLocker
  | [] => next
  | id :: ids => .read fun db =>
      if (db.account? id org).isSome then
        .lock (.account id) (lockAccountRows org next failed ids)
      else failed

/-- The rows of a request that are locked together are sorted. -/
def sortIds (ids : List ℕ) : List ℕ := ids.insertionSort (· ≤ ·)

/-- Commit what an operation does, or nothing when it fails. -/
def commitResult (op : Db → Except ServiceError Db) : LedgerLocker :=
  .commit fun db =>
    match op db with
    | .ok db' => db'
    | .error _ => db

/-- Lock the accounts that an operation writes, in order, and commit. -/
def lockAndCommit (org : ℕ) (op : Db → Except ServiceError Db) :
    Except ServiceError (List ℕ) → LedgerLocker
  | .ok ids => lockAccountRows org (commitResult op) .abort (sortIds ids)
  | .error _ => .abort

/-! ### The accounts that an operation locks -/

def createAccounts (db : Db) (org : ℕ) (body : TransactionCreate) :
    Except ServiceError (List ℕ) := do
  validateAccount db body.accountId org
  validateCategoryForType db body.categoryId org body.type.toTransactionType
  pure (if body.status = .settled then [body.accountId] else [])

def transferAccounts (db : Db) (org : ℕ) (body : TransferCreate) :
    Except ServiceError (List ℕ) := do
  raiseIf (body.fromAccountId = body.toAccountId)
    (.validation "Source and destination accounts must be different")
  validateAccount db body.fromAccountId org
  validateAccount db body.toAccountId org
  let description := transferDescription db body
  let (db, categoryId) ← createTransferCategory db org body.categoryId
  let (db, expenseTx) ← insertTransaction db
    (body.leg org body.fromAccountId categoryId description .expense)
  let (db, incomeTx) ← insertTransaction db
    (body.leg org body.toAccountId categoryId description .income)
  let _ ← linkPair db expenseTx incomeTx false (some categoryId)
  pure (if body.status = .settled then [body.fromAccountId, body.toAccountId] else [])

def updateAccounts (db : Db) (org id : ℕ) (body : TransactionUpdate) (today : Date)
    (ids : List ℕ) : Except ServiceError (List ℕ) := do
  let rows := db.lockRows org ids
  let tx ← orRaise (rowsGet rows id) (.notFound "Transaction")
  raiseIf (tx.isManualAdjustment = true)
    (.validation "Manual balance adjustments cannot be edited")
  raiseIf (tx.linkedTransactionId.any (fun l => (rowsGet rows l).isNone) = true)
    (.conflict "Transaction state changed; refresh and retry")
  let partner := tx.linkedTransactionId.bind (rowsGet rows)
  raiseIf (partner.any (fun p => p.linkedTransactionId ≠ some tx.id) = true)
    (.conflict "Transfer pair link integrity violated; refresh and retry")
  checkReferences db org body tx partner
  let edited := editTransaction tx body today
  checkCategoryEdit db org body edited
  pure (affectedAccounts tx edited (mirrorOf body edited partner))

def deleteAccounts (db : Db) (org id : ℕ) (ids : List ℕ) : Except ServiceError (List ℕ) := do
  let rows := db.lockRows org ids
  let tx ← orRaise (rowsGet rows id) (.notFound "Transaction")
  raiseIf (tx.isManualAdjustment = true)
    (.validation "Manual balance adjustments cannot be deleted")
  let linkedTx := tx.linkedTransactionId.bind (rowsGet rows)
  pure (if tx.status = .settled then tx.accountId :: (linkedTx.toList.map (·.accountId)) else [])

def bulkDeleteAccounts (db : Db) (org : ℕ) (ids : List ℕ) : List ℕ :=
  (((db.lockRows org ids).filter (!·.isManualAdjustment)).filter (·.status = .settled)).map
    (·.accountId)

def convertAccounts (db : Db) (org sourceTxId destinationAccountId : ℕ) :
    Except ServiceError (List ℕ) := do
  let source ← orRaise (db.transaction? sourceTxId org)
    (.conflict "Source row state changed; refresh and retry")
  raiseIf (source.linkedTransactionId.isSome = true)
    (.conflict "Source row state changed; refresh and retry")
  raiseIf (source.recurringId.isSome = true)
    (.conflict "Source row state changed; refresh and retry")
  raiseIf (source.accountId = destinationAccountId)
    (.conflict "Source row state changed; refresh and retry")
  pure [source.accountId, destinationAccountId]

/-! ### The rows of an import -/

/-- The accounts that the leg of a row locks. -/
def importLegAccounts (db : Db) (org : ℕ) (body : ImportConfirmRequest) (row : ImportConfirmRow) :
    Except ServiceError (List ℕ) := do
  let txBody ← row.toCreate body.accountId (row.category body) row.type
  createAccounts db org txBody

/-- The accounts that a row with a new transfer pair locks, in order. -/
def importPairAccounts (db : Db) (org : ℕ) (body : ImportConfirmRequest) (currency : String)
    (row : ImportConfirmRow) (loaded : Bool) : Except ServiceError (List ℕ) := do
  let partnerAccountId ← orRaise row.partnerAccountId
    (.validation "partner_account_id required when action='create_transfer_pair'")
  let partnerAccount ← orRaise (db.account? partnerAccountId org) (.notFound "Partner account")
  raiseIf (partnerAccount.id = body.accountId)
    (.validation "Partner account must differ from import account")
  raiseIf (loaded = false) .missingGreenlet
  raiseIf (partnerAccount.currency ≠ currency)
    (.validation "Partner account currency must match import account currency")
  pure [body.accountId, partnerAccountId]

/-- Lock what a row of an import locks, and go on: also after a row that fails. -/
def lockImportRow (org : ℕ) (body : ImportConfirmRequest) (currency : String) (s : ImportState)
    (row : ImportConfirmRow) (next : LedgerLocker) : LedgerLocker :=
  if row.skip then next
  else
    match row.action with
    | .create =>
        match importLegAccounts s.db org body row with
        | .ok ids => lockAccountRows org next next ids
        | .error _ => next
    | .pairWithExisting =>
        match row.pairWithTransactionId, importLegAccounts s.db org body row with
        | some partnerId, .ok ids =>
            -- the partner is locked after the leg has been inserted
            if (importLeg s.db org body row).toOption.isSome then
              lockAccountRows org (lockTransactionRows org next [partnerId]) next ids
            else lockAccountRows org next next ids
        | _, _ => next
    | .dropAsDuplicate => next
    | .createTransferPair =>
        match importPairAccounts s.db org body currency row s.destinationLoaded with
        | .ok ids => lockAccountRows org next next (sortIds ids)
        | .error _ => next

/-- Lock what the rows of an import lock, one row after another. -/
def lockImportRows (org : ℕ) (body : ImportConfirmRequest) (currency : String)
    (done : LedgerLocker) : ImportState → List ImportConfirmRow → LedgerLocker
  | _, [] => done
  | s, row :: rows =>
      lockImportRow org body currency s row
        (lockImportRows org body currency done (importStep org body currency s row) rows)

/-! ### Requests -/

/-- The requests that lock rows of the ledger. -/
inductive LedgerRequest
  | createTransaction (body : TransactionCreate) (isImported : Bool)
  | createTransfer (body : TransferCreate)
  | updateTransaction (id : ℕ) (body : TransactionUpdate) (today : Date)
  | deleteTransaction (id : ℕ)
  | bulkDeleteTransactions (ids : List ℕ)
  | pairExistingTransactions (expenseTxId incomeTxId : ℕ) (recategorize : Bool)
      (transferCategoryId : Option ℕ)
  | convertAndCreateLeg (sourceTxId destinationAccountId : ℕ) (recategorize : Bool)
      (transferCategoryId : Option ℕ)
  | unpairTransactions (id expenseFallbackCategoryId incomeFallbackCategoryId : ℕ)
  | executeImport (body : ImportConfirmRequest) (userId : Option ℕ)
  | generateDueTransactions (today : Date)

/-- The due templates of an organisation that settle their rows. -/
def dueSettled (db : Db) (org : ℕ) (today : Date) : List RecurringTransaction :=
  db.recurring.rows.filter fun r =>
    (r.orgId = org ∧ r.isActive = true ∧ r.nextDueDate ≤ today) ∧ r.autoSettle = true

/-- The locks that a request takes, in its order, up to its commit. -/
def LedgerRequest.program (org : ℕ) : LedgerRequest → LedgerLocker
  | .createTransaction body isImported => .read fun db =>
      lockAndCommit org
        (fun db => Prod.fst <$> Pfv.createTransaction db org body isImported)
        (createAccounts db org body)
  | .createTransfer body => .read fun db =>
      lockAndCommit org (fun db => Pfv.createTransfer db org body) (transferAccounts db org body)
  | .updateTransaction id body today => .read fun db =>
      match pairPreview db org id with
      | .error _ => .abort
      | .ok ids =>
          lockTransactionRows org
            (.read fun db => lockAndCommit org
              (fun db => Prod.fst <$> updateTransactionLocked db org id body today ids)
              (updateAccounts db org id body today ids))
            (sortIds ids)
  | .deleteTransaction id => .read fun db =>
      match pairPreview db org id with
      | .error _ => .abort
      | .ok ids =>
          lockTransactionRows org
            (.read fun db => lockAndCommit org (fun db => deleteTransactionLocked db org id ids)
              (deleteAccounts db org id ids))
            (sortIds ids)
  | .bulkDeleteTransactions ids => .read fun db =>
      let allIds := bulkDeletePreview db org ids.eraseDups
      if allIds = [] then .abort
      else
        lockTransactionRows org
          (.read fun db => lockAndCommit org
            (fun db => Prod.fst <$> bulkDeleteLocked db org ids.eraseDups allIds)
            (.ok (bulkDeleteAccounts db org allIds)))
          (sortIds allIds)
  | .pairExistingTransactions expenseTxId incomeTxId recategorize transferCategoryId =>
      if expenseTxId = incomeTxId then .abort
      else
        lockTransactionRows org
          (commitResult fun db =>
            Pfv.pairExistingTransactions db org expenseTxId incomeTxId recategorize
              transferCategoryId)
          (sortIds [expenseTxId, incomeTxId])
  | .convertAndCreateLeg sourceTxId destinationAccountId recategorize transferCategoryId =>
      .read fun db =>
        match convertPreview db org sourceTxId destinationAccountId with
        | .error _ => .abort
        | .ok () =>
            lockTransactionRows org
              (.read fun db => lockAndCommit org
                (fun db => convertLocked db org sourceTxId destinationAccountId recategorize
                  transferCategoryId)
                (convertAccounts db org sourceTxId destinationAccountId))
              [sourceTxId]
  | .unpairTransactions id expenseFallbackCategoryId incomeFallbackCategoryId => .read fun db =>
      match unpairPreview db org id expenseFallbackCategoryId incomeFallbackCategoryId with
      | .error _ => .abort
      | .ok linked =>
          lockTransactionRows org
            (commitResult fun db =>
              unpairLocked db org id linked expenseFallbackCategoryId incomeFallbackCategoryId)
            (sortIds [id, linked])
  | .executeImport body userId => .read fun db =>
      match db.account? body.accountId org with
      | none => .abort
      | some destinationAccount =>
          lockImportRows org body destinationAccount.currency
            (commitResult fun db => Prod.fst <$> Pfv.executeImport db org body userId)
            { db := db } body.rows
  | .generateDueTransactions today => .read fun db =>
      lockAccountRows org (commitResult fun db => Pfv.generateDueTransactions db org today) .abort
        ((dueSettled db org today).map (·.accountId))

end Pfv
