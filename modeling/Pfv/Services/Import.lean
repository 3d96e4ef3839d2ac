import Pfv.Services.Transfers
import Pfv.Services.Reconciliation

/-!
# Import

The confirm step of an import (`backend/app/services/import_service.py`). Every row runs inside its
own savepoint: a row that fails is reported and leaves no trace, and the rows that succeed are
grouped under a batch at the end. Learning from the category choices and telemetry touch no ledger
table and are left out.

The destination account is read once. Rolling back a savepoint that had written its balance expires
the loaded account, and the next row that reads its currency before it is loaded again fails; the
loop keeps track of that in `destinationLoaded`. The balance is written before the database is asked
to store a leg, so a leg that it refuses expires the account as well.

## Main definitions

* `importCreate`, `importPairWithExisting`, `importDropAsDuplicate`, `importCreateTransferPair`:
  the branches of a row; `importRow`.
* `executeImport`.
-/

namespace Pfv

/-! ### The legs of a row -/

/-- The body of a leg of a row, when it fits the schema of a transaction. -/
def ImportConfirmRow.toCreate (row : ImportConfirmRow) (accountId categoryId : ℕ)
    (type : EntryType) : Except ServiceError TransactionCreate := do
  let description ← orRaise (Description.ofRaw row.description) (.schema "description")
  let amount ← orRaise (Amount.ofDecimal row.amount) (.schema "amount")
  pure
    { accountId := accountId, categoryId := categoryId, description := description
      amount := amount, type := type, date := row.date, settledDate_le := by simp }

/-- `row.category_id or body.default_category_id`. -/
def ImportConfirmRow.category (row : ImportConfirmRow) (body : ImportConfirmRequest) : ℕ :=
  (row.categoryId.filter (· ≠ 0)).getD body.defaultCategoryId

/-- Create the leg of a row that comes from the bank file. -/
def importLeg (db : Db) (org : ℕ) (body : ImportConfirmRequest) (row : ImportConfirmRow) :
    Except ServiceError (Db × Transaction) := do
  let txBody ← row.toCreate body.accountId (row.category body) row.type
  createTransactionNoCommit db org txBody true false row.fitid

/-- Link the leg of a row with another leg, the expense first. -/
def importLink (db : Db) (row : ImportConfirmRow) (leg other : Transaction) :
    Except ServiceError Db :=
  if leg.type = .expense then linkPair db leg other row.recategorize row.transferCategoryId
  else linkPair db other leg row.recategorize row.transferCategoryId

/-- Link the new leg of a row with an existing row. -/
def importPair (db : Db) (org : ℕ) (currency : String) (row : ImportConfirmRow)
    (partnerId : ℕ) (newTx : Transaction) : Except ServiceError Db := do
  let partner ← orRaise (db.transaction? partnerId org)
    (.conflict "Partner row no longer exists; re-preview")
  raiseIf (partner.linkedTransactionId.isSome = true)
    (.conflict "Partner row is already linked; re-preview")
  raiseIf (partner.recurringId.isSome = true) (.conflict "Partner row is recurring; re-preview")
  raiseIf (partner.status ≠ .settled) (.conflict "Partner row no longer settled; re-preview")
  raiseIf (db.currencyOf partner.accountId ≠ some currency)
    (.conflict "Currency mismatch detected at confirm; re-preview")
  importLink db row newTx partner

/-- Create the partner leg of a row on another account and link the two. -/
def importPartnerLeg (db : Db) (org : ℕ) (body : ImportConfirmRequest) (row : ImportConfirmRow)
    (partnerAccountId : ℕ) (csvLeg : Transaction) : Except ServiceError Db := do
  let partnerBody ← row.toCreate partnerAccountId (row.category body) row.type.opposite
  let (db, partnerLeg) ← createTransactionNoCommit db org partnerBody false false none
  importLink db row csvLeg partnerLeg

/-! ### The branches of a row -/

/-- The outcome of a row: the new state, the row it stored for the bank file, and whether the
destination account is loaded afterwards; or the error, and whether the destination account is
loaded after the rollback. -/
abbrev ImportOutcome := Except (ServiceError × Bool) (Db × Option ℕ × Bool)

/-- A step after whose failure the destination account is, or is not, loaded. -/
def leavingLoaded {α : Type} (loaded : Bool) (x : Except ServiceError α) :
    Except (ServiceError × Bool) α :=
  x.mapError fun e => (e, loaded)

/-- The step that stores the leg of a row. When the database refuses the leg, the balance of the
destination account has been written and the rollback expires it. -/
def flushingLeg {α : Type} (loaded : Bool) (x : Except ServiceError α) :
    Except (ServiceError × Bool) α :=
  x.mapError fun e => (e, loaded && !e.isDatabase)

/-- `action="create"`. -/
def importCreate (db : Db) (org : ℕ) (body : ImportConfirmRequest) (row : ImportConfirmRow)
    (loaded : Bool) : ImportOutcome := do
  let (db, newTx) ← flushingLeg loaded (importLeg db org body row)
  pure (db, some newTx.id, true)

/-- `action="pair_with_existing"`: insert the new leg and link it to a locked partner. -/
def importPairWithExisting (db : Db) (org : ℕ) (body : ImportConfirmRequest) (currency : String)
    (row : ImportConfirmRow) (loaded : Bool) : ImportOutcome := do
  let partnerId ← orRaise row.pairWithTransactionId
    (.validation "pair_with_transaction_id required when action='pair_with_existing'", loaded)
  let (db, newTx) ← flushingLeg loaded (importLeg db org body row)
  let db ← leavingLoaded false (importPair db org currency row partnerId newTx)
  pure (db, some newTx.id, true)

/-- `action="drop_as_duplicate"`: check the duplicate again, then insert nothing. -/
def importDropAsDuplicate (db : Db) (org : ℕ) (body : ImportConfirmRequest) (currency : String)
    (row : ImportConfirmRow) (loaded : Bool) : ImportOutcome := do
  let duplicateId ← orRaise row.duplicateOfTransactionId
    (.validation "duplicate_of_transaction_id required when action='drop_as_duplicate'", loaded)
  raiseIf (loaded = false) (.missingGreenlet, loaded)
  raiseIf (¬row.date.HasWindow) (.dateOverflow, loaded)
  let dupCheck := findDuplicateOfLinkedLeg db org body.accountId row.amount
    row.type.toTransactionType row.date currency
  raiseIf (duplicateId ∉ dupCheck.map (·.id))
    (.conflict "Duplicate candidate no longer matches; re-preview", loaded)
  pure (db, none, loaded)

/-- `action="create_transfer_pair"`: create both legs and link them. -/
def importCreateTransferPair (db : Db) (org : ℕ) (body : ImportConfirmRequest)
    (currency : String) (row : ImportConfirmRow) (loaded : Bool) : ImportOutcome := do
  let partnerAccountId ← orRaise row.partnerAccountId
    (.validation "partner_account_id required when action='create_transfer_pair'", loaded)
  let partnerAccount ← orRaise (db.account? partnerAccountId org)
    (.notFound "Partner account", loaded)
  raiseIf (partnerAccount.id = body.accountId)
    (.validation "Partner account must differ from import account", true)
  raiseIf (loaded = false) (.missingGreenlet, loaded)
  raiseIf (partnerAccount.currency ≠ currency)
    (.validation "Partner account currency must match import account currency", loaded)
  leavingLoaded loaded
    (lockAccounts db org [min body.accountId partnerAccountId, max body.accountId partnerAccountId])
  let (db, csvLeg) ← flushingLeg loaded (importLeg db org body row)
  let db ← leavingLoaded false (importPartnerLeg db org body row partnerAccountId csvLeg)
  pure (db, some csvLeg.id, true)

def importRow (db : Db) (org : ℕ) (body : ImportConfirmRequest) (currency : String)
    (row : ImportConfirmRow) (loaded : Bool) : ImportOutcome :=
  match row.action with
  | .create => importCreate db org body row loaded
  | .pairWithExisting => importPairWithExisting db org body currency row loaded
  | .dropAsDuplicate => importDropAsDuplicate db org body currency row loaded
  | .createTransferPair => importCreateTransferPair db org body currency row loaded

/-! ### The loop -/

/-- The variables of the loop over the rows. -/
structure ImportState where
  db : Db
  importedCount : ℕ := 0
  pairedCount : ℕ := 0
  droppedDuplicateCount : ℕ := 0
  skippedCount : ℕ := 0
  errors : List ImportRowError := []
  importedTransactionIds : List ℕ := []
  destinationLoaded : Bool := true

/-- Count a row that went through. -/
def ImportState.count (s : ImportState) : ImportAction → ImportState
  | .create => { s with importedCount := s.importedCount + 1 }
  | .pairWithExisting => { s with pairedCount := s.pairedCount + 1 }
  | .dropAsDuplicate => { s with droppedDuplicateCount := s.droppedDuplicateCount + 1 }
  | .createTransferPair => { s with pairedCount := s.pairedCount + 1 }

/-- One turn of the loop: a row that fails is rolled back and reported. -/
def importStep (org : ℕ) (body : ImportConfirmRequest) (currency : String) (s : ImportState)
    (row : ImportConfirmRow) : ImportState :=
  if row.skip then { s with skippedCount := s.skippedCount + 1 }
  else
    match importRow s.db org body currency row s.destinationLoaded with
    | .error (e, loaded) =>
        { s with
          errors := s.errors ++ [⟨row.rowNumber, e⟩]
          destinationLoaded := loaded }
    | .ok (db, id, loaded) =>
        ImportState.count
          { s with
            db := db
            importedTransactionIds := s.importedTransactionIds ++ id.toList
            destinationLoaded := loaded }
          row.action

/-- The batch of an import: none when no row was stored or no user is known. -/
def importBatchOf (org : ℕ) (body : ImportConfirmRequest) (userId : Option ℕ) (s : ImportState) :
    Except ServiceError (Db × Option ℕ) :=
  match userId with
  | none => pure (s.db, none)
  | some userId =>
      if s.importedTransactionIds = [] then pure (s.db, none)
      else do
        let (db, batchId) ← createImportBatch s.db org userId body.accountId body.sourceFormat
          body.fileName s.importedTransactionIds
        pure (db, some batchId)

/-- Create, pair or drop transactions for all confirmed rows. -/
def executeImport (db : Db) (org : ℕ) (body : ImportConfirmRequest) (userId : Option ℕ) :
    Except ServiceError (Db × ImportConfirmResponse) := do
  let destinationAccount ← orRaise (db.account? body.accountId org)
    (.validation "Invalid account")
  let s := body.rows.foldl (importStep org body destinationAccount.currency) { db := db }
  let (db, importId) ← importBatchOf org body userId s
  pure
    (db,
      { importedCount := s.importedCount
        pairedCount := s.pairedCount
        droppedDuplicateCount := s.droppedDuplicateCount
        skippedCount := s.skippedCount
        errorCount := s.errors.length
        errors := s.errors
        importId := importId })

end Pfv
