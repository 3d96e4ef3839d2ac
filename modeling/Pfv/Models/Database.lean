import Pfv.Base.Guard
import Pfv.Base.Table
import Pfv.Models.Date

/-!
# The database

The rows the ledger services read and write (`backend/app/models/`), with the defaults of their
columns, and the queries the services share. Amounts and balances are in cents, the unit of the
`Numeric(12, 2)` columns; a balance outside the range of the column makes the database refuse the
statement, and the request that issued it fails and is rolled back, which the model leaves out.
Columns no modelled function reads (timestamps, `closed_at`, display fields) are left out too.

## Main definitions

* `Account`, `AccountType`, `Category`, `Transaction`, `RecurringTransaction`, `ImportBatch`.
* `ServiceError`: the exceptions of the service layer.
* `Db`: the tables, and `Db.credit`, `Db.addTransaction`, `Db.putTransaction`,
  `Db.deleteTransactions`: the writes of the services.
-/

namespace Pfv

/-! ### Enumerations -/

inductive TransactionType
  | income
  | expense
  | transfer
  deriving DecidableEq

inductive TransactionStatus
  | settled
  | pending
  deriving DecidableEq

inductive CategoryType
  | income
  | expense
  | both
  deriving DecidableEq

/-- Reconciliation state of an imported transaction. -/
inductive ReconciliationState
  | pendingReview
  | matched
  | unmatched
  | skipped
  | edited
  | accepted
  | rejected
  deriving DecidableEq

inductive ImportSourceFormat
  | csv
  | ofx
  deriving DecidableEq

inductive ImportBatchStatus
  | opened
  | closed
  deriving DecidableEq

/-- The type a request may name: `Literal["income", "expense"]`. -/
inductive EntryType
  | income
  | expense
  deriving DecidableEq

instance : LawfulBEq (ℕ × EntryType) := inferInstance

instance lawfulBEq_slug : LawfulBEq (Option String) := inferInstance

def EntryType.toTransactionType : EntryType → TransactionType
  | .income => .income
  | .expense => .expense

/-- The type of the other leg of a transfer. -/
def EntryType.opposite : EntryType → EntryType
  | .income => .expense
  | .expense => .income

def TransactionType.toEntryType? : TransactionType → Option EntryType
  | .income => some .income
  | .expense => some .expense
  | .transfer => none

def TransactionType.value : TransactionType → String
  | .income => "income"
  | .expense => "expense"
  | .transfer => "transfer"

def CategoryType.value : CategoryType → String
  | .income => "income"
  | .expense => "expense"
  | .both => "both"

def ReconciliationState.value : ReconciliationState → String
  | .pendingReview => "pending_review"
  | .matched => "matched"
  | .unmatched => "unmatched"
  | .skipped => "skipped"
  | .edited => "edited"
  | .accepted => "accepted"
  | .rejected => "rejected"

/-- What an amount of a type adds to the balance of its account. -/
def TransactionType.signed : TransactionType → ℤ → ℤ
  | .income, amount => amount
  | .expense, amount => -amount
  | .transfer, _ => 0

/-! ### Rows -/

/-- A value that a `Numeric(12, 2)` column holds, in cents. -/
def InColumn (x : ℤ) : Prop := |x| < 10 ^ 12

instance : DecidablePred InColumn := fun x => inferInstanceAs (Decidable (|x| < 10 ^ 12))

structure AccountType where
  id : ℕ
  orgId : ℕ
  slug : Option String
  deriving DecidableEq

/-- An account. The range of its balance is checked when a new row is flushed with it. Any other
write that leaves the range fails its whole request, which is left out. -/
structure Account where
  id : ℕ := 0
  orgId : ℕ
  accountTypeId : ℕ
  name : String
  balance : ℤ := 0
  currency : String := "EUR"
  isActive : Bool := true
  closeDay : Option ℕ := none
  openingBalance : ℤ := 0
  openingBalanceDate : Date
  deriving DecidableEq

structure Category where
  id : ℕ := 0
  orgId : ℕ
  parentId : Option ℕ := none
  name : String
  slug : Option String := none
  isSystem : Bool := false
  type : CategoryType := .both
  deriving DecidableEq

/-- Financial transaction. A transfer between own accounts is two rows, an expense and an income
leg, that point at each other through `linkedTransactionId`. -/
structure Transaction where
  id : ℕ := 0
  orgId : ℕ
  accountId : ℕ
  categoryId : ℕ
  description : String
  amount : ℤ
  type : TransactionType
  status : TransactionStatus := .settled
  linkedTransactionId : Option ℕ := none
  recurringId : Option ℕ := none
  date : Date
  settledDate : Option Date
  isImported : Bool := false
  importBatchId : Option ℕ := none
  reconciliationState : ReconciliationState := .accepted
  fitid : Option String := none
  isManualAdjustment : Bool := false
  deriving DecidableEq

structure RecurringTransaction where
  id : ℕ := 0
  orgId : ℕ
  accountId : ℕ
  categoryId : ℕ
  description : String
  amount : ℤ
  type : EntryType
  frequency : Frequency
  nextDueDate : Date
  autoSettle : Bool := false
  isActive : Bool := true
  deriving DecidableEq

/-- Header row for one import batch. -/
structure ImportBatch where
  id : ℕ := 0
  orgId : ℕ
  accountId : ℕ
  sourceFormat : ImportSourceFormat
  fileName : String
  createdByUserId : ℕ
  status : ImportBatchStatus := .opened
  rowCount : ℤ := 0
  acceptedCount : ℤ := 0
  pendingCount : ℤ := 0
  deriving DecidableEq

instance : Row AccountType := ⟨AccountType.id, fun n a => { a with id := n }, fun _ _ => rfl⟩

instance : Row Account := ⟨Account.id, fun n a => { a with id := n }, fun _ _ => rfl⟩

instance : Row Category := ⟨Category.id, fun n c => { c with id := n }, fun _ _ => rfl⟩

instance : Row Transaction := ⟨Transaction.id, fun n t => { t with id := n }, fun _ _ => rfl⟩

instance : Row RecurringTransaction :=
  ⟨RecurringTransaction.id, fun n r => { r with id := n }, fun _ _ => rfl⟩

instance : Row ImportBatch := ⟨ImportBatch.id, fun n b => { b with id := n }, fun _ _ => rfl⟩

namespace Transaction

/-- What a row adds to the balance of its account: only settled rows count. -/
def settledAmount (t : Transaction) : ℤ :=
  if t.status = .settled then t.type.signed t.amount else 0

/-- The checks of the database on a written row: the SETTLED-implies-settled_date guard
(`_enforce_settled_implies_settled_date`) and the sizes of the columns for the description, the
amount and the FITID. -/
def Flushable (t : Transaction) : Prop :=
  (t.status = .settled → t.settledDate.isSome) ∧ t.description.length ≤ 255 ∧ InColumn t.amount ∧
    t.fitid.all (·.length ≤ 255) = true

instance (t : Transaction) : Decidable t.Flushable := inferInstanceAs (Decidable (_ ∧ _))

/-- The period-bucketing date, `coalesce(settled_date, date)`. -/
def effectivePeriodDate (t : Transaction) : Date :=
  t.settledDate.getD t.date

/-- Python predicate version of `reportable_transaction_filter`: rows that count toward income
and expense aggregates (`is_reportable_transaction`). -/
def isReportable (t : Transaction) : Bool :=
  t.linkedTransactionId = none ∧ t.isManualAdjustment = false ∧
    t.reconciliationState ≠ .skipped ∧ t.reconciliationState ≠ .rejected

end Transaction

/-! ### Errors -/

/-- The exceptions of the service layer, those of the schema and database layers below it,
`MissingGreenlet`, which reading an expired attribute raises, and the `OverflowError` of a date
outside the calendar. -/
inductive ServiceError
  | notFound (resource : String)
  | validation (detail : String)
  | conflict (detail : String)
  | httpException (status : ℕ) (detail : String)
  | schema (detail : String)
  | database (detail : String)
  | missingGreenlet
  | dateOverflow
  deriving DecidableEq

def ServiceError.isDatabase : ServiceError → Bool
  | .database _ => true
  | _ => false

/-! ### Tables -/

/-- The tables of the database. -/
structure Db where
  accountTypes : Table AccountType
  accounts : Table Account
  categories : Table Category
  transactions : Table Transaction
  recurring : Table RecurringTransaction
  importBatches : Table ImportBatch

namespace Db

/-- The account of an organisation with a given id. -/
def account? (db : Db) (id org : ℕ) : Option Account :=
  (db.accounts.get? id).filter (·.orgId = org)

/-- The category of an organisation with a given id. -/
def category? (db : Db) (id org : ℕ) : Option Category :=
  (db.categories.get? id).filter (·.orgId = org)

/-- The transaction of an organisation with a given id. -/
def transaction? (db : Db) (id org : ℕ) : Option Transaction :=
  (db.transactions.get? id).filter (·.orgId = org)

/-- The recurring template of an organisation with a given id. -/
def recurring? (db : Db) (id org : ℕ) : Option RecurringTransaction :=
  (db.recurring.get? id).filter (·.orgId = org)

/-- The import batch of an organisation with a given id. -/
def importBatch? (db : Db) (id org : ℕ) : Option ImportBatch :=
  (db.importBatches.get? id).filter (·.orgId = org)

/-- The currency of an account, through the relationship `Transaction.account`. -/
def currencyOf (db : Db) (accountId : ℕ) : Option String :=
  (db.accounts.get? accountId).map (·.currency)

/-- The rows of an organisation with the given ids, in ascending order of id, locked. -/
def lockRows (db : Db) (org : ℕ) (ids : List ℕ) : List Transaction :=
  db.transactions.rows.filter fun t => t.id ∈ ids ∧ t.orgId = org

/-- The balance of an account fits its column. The flush of a new row checks it; transfers, updates,
deletes and transitions are modelled without the range, where a request that leaves it would fail as
a whole. -/
def BalanceFits (db : Db) (accountId : ℕ) : Prop :=
  ∀ a ∈ db.accounts.get? accountId, InColumn a.balance

instance (db : Db) (accountId : ℕ) : Decidable (db.BalanceFits accountId) :=
  inferInstanceAs (Decidable (∀ a ∈ db.accounts.get? accountId, InColumn a.balance))

/-- Add to the balance of an account. -/
def credit (db : Db) (accountId : ℕ) (x : ℤ) : Db :=
  { db with
    accounts := db.accounts.modify accountId (fun a => { a with balance := a.balance + x })
      fun _ => rfl }

/-- Store a new transaction. -/
def addTransaction (db : Db) (t : Transaction) : Db :=
  { db with transactions := db.transactions.insert t }

/-- Write a transaction back. -/
def putTransaction (db : Db) (t : Transaction) : Db :=
  { db with transactions := db.transactions.put t }

/-- Clear the link of a row to one of the deleted rows: `ondelete="SET NULL"`. -/
def unlinkFrom (ids : List ℕ) (t : Transaction) : Transaction :=
  if t.linkedTransactionId.any (· ∈ ids) then { t with linkedTransactionId := none } else t

/-- Delete the transactions with the given ids. The foreign key of `linked_transaction_id` clears
the links that pointed to them. -/
def deleteTransactions (db : Db) (ids : List ℕ) : Db :=
  { db with
    transactions := (db.transactions.filter (·.id ∉ ids)).mapRows (unlinkFrom ids) fun t => by
      unfold unlinkFrom
      split_ifs <;> rfl }

end Db

/-- The row with a given id among locked rows. -/
def rowsGet (rows : List Transaction) (id : ℕ) : Option Transaction :=
  rows.find? (·.id = id)

end Pfv
