import Pfv.Models.Database

/-!
# Request schemas

The request bodies of the ledger services (`backend/app/schemas/`). A body that does not pass its
schema never reaches a service, so the checks of the schemas are fields of the types: an amount is
positive and fits the column, a description is not blank, a settled date is not before the date.

## Main definitions

* `strip`, `Casing`: the string methods the services share.
* `Description`: a description as the validators leave it.
* `Amount`: `Decimal` with `gt=0`, `max_digits=12`, `decimal_places=2`.
* `TransactionCreate`, `TransactionUpdate`, `TransferCreate`, `PromoteToRecurringRequest`,
  `BalanceAdjustmentRequest`, `AccountCreate`, `RecurringCreate`, `RecurringUpdate`.
* `ImportConfirmRow`, `ImportConfirmRequest`, `ImportConfirmResponse`.
* `ReconciliationEdits`, `ReconciliationTransition`, `ReconcileBatchRequest`,
  `ReconcileBatchResponse`.
-/

namespace Pfv

/-! ### Strings and amounts -/

/-- White space as `str.isspace` has it. -/
def isSpace (c : Char) : Bool :=
  let n := c.toNat
  (9 ≤ n ∧ n ≤ 13) ∨ (28 ≤ n ∧ n ≤ 32) ∨ n = 0x85 ∨ n = 0xa0 ∨ n = 0x1680 ∨
    (0x2000 ≤ n ∧ n ≤ 0x200a) ∨ n = 0x2028 ∨ n = 0x2029 ∨ n = 0x202f ∨ n = 0x205f ∨ n = 0x3000

/-- `str.strip`: the string without white space at either end. -/
def strip (s : String) : String :=
  String.ofList ((s.toList.dropWhile isSpace).reverse.dropWhile isSpace).reverse

theorem length_strip_le (s : String) : (strip s).length ≤ s.length := by
  have hfront := (List.dropWhile_suffix (p := isSpace) (l := s.toList)).length_le
  have hback := (List.dropWhile_suffix (p := isSpace)
    (l := (s.toList.dropWhile isSpace).reverse)).length_le
  rw [String.length_toList] at hfront
  simp only [strip, String.length_ofList, List.length_reverse] at hback ⊢
  exact le_trans hback hfront

/-- `str.lower`. What it takes from the Unicode tables is left open. -/
class Casing where
  lower : String → String

/-- Lower-casing on the letters of ASCII, for examples. -/
@[reducible]
def asciiCasing : Casing := ⟨fun s => s.map Char.toLower⟩

/-- A description a schema with `max_length=255` and a not-blank validator lets through. -/
structure Description where
  text : String
  ne_empty : text ≠ ""
  length_le : text.length ≤ 255
  deriving DecidableEq

/-- The description of a raw field: at most 255 characters, stripped, not blank. -/
def Description.ofRaw (raw : String) : Option Description :=
  if h : raw.length ≤ 255 ∧ strip raw ≠ "" then
    some ⟨strip raw, h.2, le_trans (length_strip_le raw) h.1⟩
  else none

/-- A positive amount with at most ten digits before and two after the point, in cents. -/
structure Amount where
  cents : ℤ
  pos : 0 < cents
  lt : cents < 10 ^ 12
  deriving DecidableEq

theorem Amount.inColumn (a : Amount) : InColumn a.cents :=
  abs_lt.mpr ⟨by have := a.pos; omega, a.lt⟩

/-- The amount of a decimal number, when it has at most two decimals and fits the column. -/
def Amount.ofDecimal (q : ℚ) : Option Amount :=
  if h : (q * 100).den = 1 ∧ 0 < (q * 100).num ∧ (q * 100).num < 10 ^ 12 then
    some ⟨(q * 100).num, h.2.1, h.2.2⟩
  else none

/-- The amount of a number of cents, when it fits the column. -/
def Amount.ofCents (c : ℤ) : Option Amount :=
  if h : 0 < c ∧ c < 10 ^ 12 then some ⟨c, h.1, h.2⟩ else none

/-! ### Transactions -/

structure TransactionCreate where
  accountId : ℕ
  categoryId : ℕ
  description : Description
  amount : Amount
  type : EntryType
  status : TransactionStatus := .settled
  date : Date
  settledDate : Option Date := none
  settledDate_le : ∀ d ∈ settledDate, date ≤ d

structure TransferCreate where
  fromAccountId : ℕ
  toAccountId : ℕ
  categoryId : Option ℕ := none
  description : String := ""
  amount : Amount
  status : TransactionStatus := .settled
  date : Date
  length_le : description.length ≤ 255

/-- A partial update. `settledDate` is `none` when the key is omitted and `some none` when it is
null; the other fields mean the same in both cases. -/
structure TransactionUpdate where
  accountId : Option ℕ := none
  categoryId : Option ℕ := none
  description : Option String := none
  amount : Option Amount := none
  type : Option EntryType := none
  status : Option TransactionStatus := none
  settledDate : Option (Option Date) := none
  date : Option Date := none
  description_ok : ∀ d ∈ description, d ≠ ""

structure PromoteToRecurringRequest where
  frequency : Frequency
  nextDueDate : Date
  autoSettle : Bool := false

/-- `targetText` is the decimal as the client wrote it, which the description of the generated
row repeats. -/
structure BalanceAdjustmentRequest where
  targetBalance : ℤ
  targetText : String
  reason : Option String := none
  lower : -10 ^ 12 < targetBalance
  upper : targetBalance < 10 ^ 12

structure AccountCreate where
  name : String
  accountTypeId : ℕ
  currency : String := "EUR"
  closeDay : Option ℕ := none
  openingBalance : ℤ := 0
  openingBalanceDate : Option Date := none
  closeDay_range : ∀ d ∈ closeDay, 1 ≤ d ∧ d ≤ 28
  lower : -10 ^ 12 < openingBalance
  upper : openingBalance < 10 ^ 12

/-- The schema of a template bounds its amount only from below, and the column rounds it to
cents, so that a positive amount may be stored as zero. -/
structure RecurringCreate where
  accountId : ℕ
  categoryId : ℕ
  description : String
  amount : ℤ
  type : EntryType
  frequency : Frequency
  nextDueDate : Date
  autoSettle : Bool := false
  amount_nonneg : 0 ≤ amount

structure RecurringUpdate where
  accountId : Option ℕ := none
  categoryId : Option ℕ := none
  description : Option String := none
  amount : Option ℤ := none
  type : Option EntryType := none
  frequency : Option Frequency := none
  nextDueDate : Option Date := none
  autoSettle : Option Bool := none
  isActive : Option Bool := none
  amount_nonneg : ∀ a ∈ amount, 0 ≤ a

/-! ### Import -/

inductive ImportAction
  | create
  | pairWithExisting
  | dropAsDuplicate
  | createTransferPair
  deriving DecidableEq

/-- A single row in the confirm request. Its amount is a positive decimal of any precision; the
bounds of `TransactionCreate` are checked row by row. -/
structure ImportConfirmRow where
  rowNumber : ℕ
  date : Date
  description : String
  amount : ℚ
  type : EntryType
  categoryId : Option ℕ := none
  skip : Bool := false
  action : ImportAction := .create
  pairWithTransactionId : Option ℕ := none
  duplicateOfTransactionId : Option ℕ := none
  partnerAccountId : Option ℕ := none
  transferCategoryId : Option ℕ := none
  recategorize : Bool := true
  suggestedCategoryId : Option ℕ := none
  fitid : Option String := none
  amount_pos : 0 < amount

structure ImportConfirmRequest where
  accountId : ℕ
  defaultCategoryId : ℕ
  rows : List ImportConfirmRow
  fileName : String
  sourceFormat : ImportSourceFormat
  fileName_range : 1 ≤ fileName.length ∧ fileName.length ≤ 255

structure ImportRowError where
  rowNumber : ℕ
  error : ServiceError
  deriving DecidableEq

structure ImportConfirmResponse where
  importedCount : ℕ
  pairedCount : ℕ
  droppedDuplicateCount : ℕ
  skippedCount : ℕ
  errorCount : ℕ
  errors : List ImportRowError
  importId : Option ℕ
  deriving DecidableEq

/-! ### Reconciliation -/

structure ReconciliationEdits where
  description : Option String := none
  amount : Option Amount := none
  date : Option Date := none
  categoryId : Option ℕ := none
  description_le : ∀ d ∈ description, d.length ≤ 255

structure ReconciliationTransition where
  transactionId : ℕ
  toState : ReconciliationState
  edits : Option ReconciliationEdits := none
  matchWithTransactionId : Option ℕ := none

/-- All transitions of a request commit together or not at all. -/
structure ReconcileBatchRequest where
  transitions : List ReconciliationTransition
  nonempty : transitions ≠ []
  length_le : transitions.length ≤ 500

structure ReconcileBatchResponse where
  importId : ℕ
  transitioned : List ℕ
  remainingPending : ℤ
  batchStatus : ImportBatchStatus
  deriving DecidableEq

end Pfv
