import Pfv.Services.Learning

/-!
# Entering transactions

Creating one transaction by hand, with the learning after it
(`backend/app/services/transaction_service.py`), and a batch of them
(`backend/app/services/transaction_batch_service.py`). The single entry commits the row and then
tries to learn its category; when that fails it rolls back and goes on to read the row it has
stored. The batch stores each row in a savepoint of its own, learns from all stored rows afterwards,
each in a savepoint again, and leaves the commit to the router.

## Main definitions

* `enterTransaction`: the single entry; what it leaves behind also when it raises.
* `BatchTransactionsRequest`, `BatchTransactionsResponse`, `createBatch`: the batch.
* `enterOneByOne`: the rows of a batch entered one by one, past the ones that raise.
-/

namespace Pfv

/-! ### Schemas -/

structure BatchTransactionRow where
  rowNumber : ℕ
  transaction : TransactionCreate
  rowNumber_pos : 1 ≤ rowNumber

structure BatchTransactionsRequest where
  rows : List BatchTransactionRow
  length_pos : 1 ≤ rows.length
  length_le : rows.length ≤ 500
  rowNumbers_nodup : (rows.map (·.rowNumber)).Nodup

structure BatchRowError where
  rowNumber : ℕ
  error : String
  deriving DecidableEq

structure BatchRowResult where
  rowNumber : ℕ
  transactionId : ℕ
  deriving DecidableEq

structure BatchTransactionsResponse where
  importedCount : ℕ
  errorCount : ℕ
  results : List BatchRowResult
  errors : List BatchRowError
  deriving DecidableEq

/-- Render an exception as a flat string. Only the errors of the domain show their text. -/
def errorMessage : ServiceError → String
  | .validation detail => detail
  | .conflict detail => detail
  | .notFound resource => resource ++ " not found"
  | _ => "Internal error processing row"

/-! ### The single entry -/

variable (normalizeDescription : String → String)

/-- Create a transaction, commit it and learn its category. A failure to learn is rolled back, which
expires the stored row, and the read of its id that follows raises. -/
def enterTransaction (books : Books) (org : ℕ) (body : TransactionCreate) (isImported : Bool) :
    Books × Except ServiceError Transaction :=
  match createTransaction books.toDb org body isImported with
  | .error e => (books, .error e)
  | .ok (db, tx) =>
      let books := { books with toDb := db }
      if isImported then (books, .ok tx)
      else
        match learnFromChoice normalizeDescription db books.categoryRules org body.description.text
          body.categoryId .userEdit with
        | .ok rules => ({ books with categoryRules := rules }, .ok tx)
        | .error _ => (books, .error .missingGreenlet)

/-- What is there after some rows were entered one by one: the books, the numbers of the rows whose
call returned and of those whose call raised. -/
structure SingleEntries where
  books : Books
  succeeded : List ℕ := []
  raised : List ℕ := []

/-- Enter one row more, past an error. -/
def SingleEntries.enter (org : ℕ) (s : SingleEntries) (row : BatchTransactionRow) :
    SingleEntries :=
  match enterTransaction normalizeDescription s.books org row.transaction false with
  | (books, .ok _) =>
      { s with books := books, succeeded := s.succeeded ++ [row.rowNumber] }
  | (books, .error _) => { s with books := books, raised := s.raised ++ [row.rowNumber] }

/-- Enter rows one by one, in order. -/
def enterOneByOne (books : Books) (org : ℕ) (rows : List BatchTransactionRow) : SingleEntries :=
  rows.foldl (SingleEntries.enter normalizeDescription org) { books := books }

/-! ### The batch -/

/-- The ledger and the answers while the rows of a batch are stored. -/
structure BatchState where
  db : Db
  results : List BatchRowResult := []
  errors : List BatchRowError := []

/-- Store a row in a savepoint. -/
def BatchState.store (org : ℕ) (s : BatchState) (row : BatchTransactionRow) : BatchState :=
  match createTransactionNoCommit s.db org row.transaction false false none with
  | .ok (db, tx) => { s with db := db, results := s.results ++ [⟨row.rowNumber, tx.id⟩] }
  | .error e => { s with errors := s.errors ++ [⟨row.rowNumber, errorMessage e⟩] }

def getTransaction (db : Db) (org id : ℕ) : Except ServiceError Transaction :=
  orRaise (db.transaction? id org) (.notFound "Transaction")

/-- Learn from a stored row in a savepoint. -/
def learnFromResult (db : Db) (org : ℕ) (rules : Table CategoryRule) (result : BatchRowResult) :
    Table CategoryRule :=
  match (do
    let tx ← getTransaction db org result.transactionId
    learnFromChoice normalizeDescription db rules org tx.description tx.categoryId .userEdit) with
  | .ok rules => rules
  | .error _ => rules

/-- Process a batch, up to the commit. -/
def createBatch (books : Books) (org : ℕ) (body : BatchTransactionsRequest) :
    Books × BatchTransactionsResponse :=
  let s := body.rows.foldl (BatchState.store org) { db := books.toDb }
  ({ books with
      toDb := s.db
      categoryRules :=
        s.results.foldl (learnFromResult normalizeDescription s.db org) books.categoryRules },
    { importedCount := s.results.length
      errorCount := s.errors.length
      results := s.results
      errors := s.errors })

end Pfv
