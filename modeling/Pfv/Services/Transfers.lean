import Pfv.Models.Collation
import Pfv.Services.Transactions
import Mathlib.Data.List.Sort

/-!
# Transfers

Transfer pairs, two rows linked to each other (`backend/app/services/transaction_service.py`).
`linkPair` is the one function of the transaction service that sets a link; `unpairLocked` clears
one.

## Main definitions

* `linkPair`, `pairExistingTransactions`.
* `convertPreview`, `convertLocked`, `convertAndCreateLeg`.
* `unpairPreview`, `unpairLocked`, `unpairTransactions`.
* `createTransfer`.
* `findDuplicateOfLinkedLeg`, `findMatchCandidates`.
-/

namespace Pfv

/-! ### The Transfer category -/

/-- The Transfer category of an organisation, created when it is missing. -/
def getOrCreateTransferCategory (db : Db) (org : ℕ) : Db × ℕ :=
  match db.categories.rows.find? fun c => c.slug = some "transfer" ∧ c.orgId = org with
  | some cat => (db, cat.id)
  | none =>
      let newCat : Category :=
        { orgId := org, name := "Transfer", slug := some "transfer", type := .both
          isSystem := true }
      ({ db with categories := db.categories.insert newCat }, db.categories.next)

/-! ### Linking a pair -/

/-- The invariants of a pair, checked before two rows are linked. -/
def checkPair (db : Db) (expenseTx incomeTx : Transaction) : Except ServiceError Unit := do
  raiseIf (expenseTx.isManualAdjustment = true ∨ incomeTx.isManualAdjustment = true)
    (.validation "Manual balance adjustments cannot be paired as transfer legs")
  raiseIf (expenseTx.orgId ≠ incomeTx.orgId)
    (.validation "Transfer legs must belong to the same org")
  raiseIf (expenseTx.type ≠ .expense) (.validation "Expense leg must have type=EXPENSE")
  raiseIf (incomeTx.type ≠ .income) (.validation "Income leg must have type=INCOME")
  raiseIf (expenseTx.accountId = incomeTx.accountId)
    (.validation "Transfer legs must be on different accounts")
  raiseIf (|expenseTx.amount| ≠ |incomeTx.amount|)
    (.validation "Transfer legs must have equal absolute amounts")
  raiseIf (expenseTx.linkedTransactionId.isSome = true)
    (.validation "Expense leg is already linked")
  raiseIf (incomeTx.linkedTransactionId.isSome = true)
    (.validation "Income leg is already linked")
  raiseIf (db.currencyOf expenseTx.accountId ≠ db.currencyOf incomeTx.accountId)
    (.validation "Transfer legs must have the same currency")

/-- The category both legs get, when they are recategorised. -/
def transferCategory (db : Db) (org : ℕ) (recategorize : Bool) (transferCategoryId : Option ℕ) :
    Except ServiceError (Db × Option ℕ) :=
  if recategorize = false then pure (db, none)
  else
    match transferCategoryId with
    | none =>
        let (db, catId) := getOrCreateTransferCategory db org
        pure (db, some catId)
    | some catId => do
        validateTransferCategory db catId org
        pure (db, some catId)

/-- A leg linked to another row, and recategorised when a category is given. -/
def Transaction.linkTo (t : Transaction) (id : ℕ) (categoryId : Option ℕ) : Transaction :=
  { t with linkedTransactionId := some id, categoryId := categoryId.getD t.categoryId }

/-- Validate transfer-pair invariants and link the rows bidirectionally. The caller holds the
locks on both rows. -/
def linkPair (db : Db) (expenseTx incomeTx : Transaction) (recategorize : Bool)
    (transferCategoryId : Option ℕ) : Except ServiceError Db := do
  checkPair db expenseTx incomeTx
  let (db, catId) ← transferCategory db expenseTx.orgId recategorize transferCategoryId
  let db ← saveTransaction db (expenseTx.linkTo incomeTx.id catId)
  saveTransaction db (incomeTx.linkTo expenseTx.id catId)

/-- Link two existing un-linked rows as a transfer pair. No balance changes. -/
def pairExistingTransactions (db : Db) (org expenseTxId incomeTxId : ℕ) (recategorize : Bool)
    (transferCategoryId : Option ℕ) : Except ServiceError Db := do
  raiseIf (expenseTxId = incomeTxId) (.validation "Expense and income IDs must differ")
  let rows := db.lockRows org [expenseTxId, incomeTxId]
  raiseIf (rows.length ≠ 2) (.notFound "Transaction")
  let expenseTx ← orRaise (rowsGet rows expenseTxId) (.notFound "Transaction")
  let incomeTx ← orRaise (rowsGet rows incomeTxId) (.notFound "Transaction")
  linkPair db expenseTx incomeTx recategorize transferCategoryId

/-! ### Converting a row -/

/-- The unlocked reads and checks of a conversion. -/
def convertPreview (db : Db) (org sourceTxId destinationAccountId : ℕ) :
    Except ServiceError Unit := do
  let source ← orRaise (db.transaction? sourceTxId org) (.notFound "Transaction")
  raiseIf (source.linkedTransactionId.isSome = true)
    (.validation "Source row is already a transfer leg")
  raiseIf (source.recurringId.isSome = true)
    (.validation "Recurring rows cannot be converted to transfer legs")
  raiseIf (source.isManualAdjustment = true)
    (.validation "Cannot convert a manual balance adjustment to a transfer leg")
  raiseIf (source.accountId = destinationAccountId)
    (.validation "Source and destination accounts must differ")
  let dst ← orRaise (db.account? destinationAccountId org) (.notFound "Account")
  raiseIf (db.currencyOf source.accountId ≠ some dst.currency)
    (.validation "Source and destination accounts must have the same currency")

/-- The leg created on the destination account: it mirrors the source row. -/
def partnerLeg (org destinationAccountId : ℕ) (source : Transaction) : Transaction where
  orgId := org
  accountId := destinationAccountId
  categoryId := source.categoryId
  description := source.description
  amount := source.amount
  type := if source.type = .expense then .income else .expense
  status := source.status
  date := source.date
  settledDate := source.settledDate

/-- The part of a conversion that runs once the source row is locked. -/
def convertLocked (db : Db) (org sourceTxId destinationAccountId : ℕ) (recategorize : Bool)
    (transferCategoryId : Option ℕ) : Except ServiceError Db := do
  let source ← orRaise (db.transaction? sourceTxId org)
    (.conflict "Source row state changed; refresh and retry")
  raiseIf (source.linkedTransactionId.isSome = true)
    (.conflict "Source row state changed; refresh and retry")
  raiseIf (source.recurringId.isSome = true)
    (.conflict "Source row state changed; refresh and retry")
  raiseIf (source.accountId = destinationAccountId)
    (.conflict "Source row state changed; refresh and retry")
  lockAccounts db org
    [min source.accountId destinationAccountId, max source.accountId destinationAccountId]
  raiseIf (db.currencyOf source.accountId ≠ db.currencyOf destinationAccountId)
    (.conflict "Account currencies changed; refresh and retry")
  let (db, partner) ← insertTransaction db (partnerLeg org destinationAccountId source)
  let db ← applySettled db partner
  if source.type = .expense then linkPair db source partner recategorize transferCategoryId
  else linkPair db partner source recategorize transferCategoryId

/-- Convert an un-linked source row into a transfer leg by creating the matching partner leg on
the destination account. -/
def convertAndCreateLeg (db : Db) (org sourceTxId destinationAccountId : ℕ) (recategorize : Bool)
    (transferCategoryId : Option ℕ) : Except ServiceError Db := do
  convertPreview db org sourceTxId destinationAccountId
  convertLocked db org sourceTxId destinationAccountId recategorize transferCategoryId

/-! ### Breaking a pair -/

/-- The unlocked reads and checks of an unpair: the id of the linked row. -/
def unpairPreview (db : Db) (org id expenseFallbackCategoryId incomeFallbackCategoryId : ℕ) :
    Except ServiceError ℕ := do
  let preview ← orRaise (db.transaction? id org) (.notFound "Transaction")
  let linked ← orRaise preview.linkedTransactionId
    (.validation "Transaction is not part of a transfer pair")
  validateCategory db expenseFallbackCategoryId org
  validateCategory db incomeFallbackCategoryId org
  let expCat ← orRaise (db.category? expenseFallbackCategoryId org)
    (.validation "Invalid category")
  let incCat ← orRaise (db.category? incomeFallbackCategoryId org)
    (.validation "Invalid category")
  raiseIf (¬(expCat.type = .expense ∨ expCat.type = .both))
    (.validation "expense_fallback_category_id must be EXPENSE or BOTH")
  raiseIf (¬(incCat.type = .income ∨ incCat.type = .both))
    (.validation "income_fallback_category_id must be INCOME or BOTH")
  pure linked

/-- A leg without its link, under its fallback category. -/
def Transaction.unlink (t : Transaction) (categoryId : ℕ) : Transaction :=
  { t with linkedTransactionId := none, categoryId := categoryId }

/-- The part of an unpair that runs once the row and the row it was linked to are locked. -/
def unpairLocked (db : Db) (org id linked expenseFallbackCategoryId incomeFallbackCategoryId : ℕ) :
    Except ServiceError Db := do
  let rows := db.lockRows org [id, linked]
  raiseIf (rows.length ≠ 2) (.conflict "Pair partner not found; refresh and retry")
  let expenseTx ← orRaise (rows.find? (·.type = .expense))
    (.conflict "Pair has invalid type composition")
  let incomeTx ← orRaise (rows.find? (·.type = .income))
    (.conflict "Pair has invalid type composition")
  let db ← saveTransaction db (expenseTx.unlink expenseFallbackCategoryId)
  saveTransaction db (incomeTx.unlink incomeFallbackCategoryId)

/-- Break a transfer pair without deleting either row. No balance changes. -/
def unpairTransactions (db : Db)
    (org id expenseFallbackCategoryId incomeFallbackCategoryId : ℕ) : Except ServiceError Db := do
  let linked ← unpairPreview db org id expenseFallbackCategoryId incomeFallbackCategoryId
  unpairLocked db org id linked expenseFallbackCategoryId incomeFallbackCategoryId

/-! ### Creating a transfer -/

/-- The description of a transfer, generated when none is given. -/
def transferDescription (db : Db) (body : TransferCreate) : String :=
  if strip body.description = "" then
    "Transfer from " ++ ((db.accounts.get? body.fromAccountId).map (·.name)).getD "None" ++
      " to " ++ ((db.accounts.get? body.toAccountId).map (·.name)).getD "None"
  else strip body.description

/-- One leg of a new transfer. -/
def TransferCreate.leg (body : TransferCreate) (org accountId categoryId : ℕ)
    (description : String) (type : TransactionType) : Transaction where
  orgId := org
  accountId := accountId
  categoryId := categoryId
  description := description
  amount := body.amount.cents
  type := type
  status := body.status
  date := body.date
  settledDate := if body.status = .settled then some body.date else none

/-- The category of a new transfer: the given one when it admits both types, else the Transfer
category. -/
def createTransferCategory (db : Db) (org : ℕ) : Option ℕ → Except ServiceError (Db × ℕ)
  | none => pure (getOrCreateTransferCategory db org)
  | some catId => do
      validateTransferCategory db catId org
      pure (db, catId)

/-- Create a linked pair of transactions for a transfer between accounts. -/
def createTransfer (db : Db) (org : ℕ) (body : TransferCreate) : Except ServiceError Db := do
  raiseIf (body.fromAccountId = body.toAccountId)
    (.validation "Source and destination accounts must be different")
  validateAccount db body.fromAccountId org
  validateAccount db body.toAccountId org
  let description := transferDescription db body
  let (db, categoryId) ← createTransferCategory db org body.categoryId
  let (db, expenseTx) ← insertTransaction db
    (body.leg org body.fromAccountId categoryId description .expense)
  let (db, incomeTx) ← insertTransaction db
    (body.leg org body.toAccountId categoryId description .income)
  let db ← linkPair db expenseTx incomeTx false (some categoryId)
  if body.status = .settled then do
    lockAccounts db org
      [min body.fromAccountId body.toAccountId, max body.fromAccountId body.toAccountId]
    pure ((db.credit body.fromAccountId (-body.amount.cents)).credit body.toAccountId
      body.amount.cents)
  else pure db

/-! ### Candidates for a bank row -/

/-- `date.max.toordinal()`. -/
def maxOrdinal : ℕ := 3652059

/-- The window of three days around a date lies in the calendar; computing one that does not is an
`OverflowError`. -/
def Date.HasWindow (date : Date) : Prop :=
  3 < date.toOrdinal ∧ date.toOrdinal + 3 ≤ maxOrdinal

instance (date : Date) : Decidable date.HasWindow := inferInstanceAs (Decidable (_ ∧ _))

/-- Ordered by the distance of the date, then by id. -/
def closerTo (date : Date) (a b : Transaction) : Prop :=
  a.date.daysApart date < b.date.daysApart date ∨
    (a.date.daysApart date = b.date.daysApart date ∧ a.id ≤ b.id)

instance (date : Date) : DecidableRel (closerTo date) := fun _ _ =>
  inferInstanceAs (Decidable (_ ∨ _))

/-- Up to ten already linked rows on the same account that match a bank row within three days. They
are all on one account, whose own currency is asked for, so it does not matter how the database
compares currencies. -/
def findDuplicateOfLinkedLeg (db : Db) (org accountId : ℕ) (amount : ℚ) (type : TransactionType)
    (date : Date) (currency : String) : List Transaction :=
  let rows := db.transactions.rows.filter fun t =>
    t.orgId = org ∧ t.accountId = accountId ∧ t.type = type ∧ (t.amount : ℚ) = amount * 100 ∧
      t.linkedTransactionId.isSome ∧ t.isManualAdjustment = false ∧
      t.date.daysApart date ≤ 3 ∧ db.currencyOf t.accountId = some currency
  (rows.insertionSort (closerTo date)).take 10

/-- Up to twenty-five rows on other accounts that could be the other leg of a bank row: unlinked,
settled, not recurring, of the opposite type and the same amount within three days. The database
compares the currencies. -/
def findMatchCandidates (col : Collation) (db : Db) (org : ℕ) (sourceType : TransactionType)
    (amount : ℚ) (accountIdExcluded : ℕ) (date : Date) (currency : String) : List Transaction :=
  let targetType : TransactionType := if sourceType = .expense then .income else .expense
  let rows := db.transactions.rows.filter fun t =>
    t.orgId = org ∧ t.accountId ≠ accountIdExcluded ∧ t.type = targetType ∧
      (t.amount : ℚ) = amount * 100 ∧ t.status = .settled ∧ t.linkedTransactionId = none ∧
      t.recurringId = none ∧ t.isManualAdjustment = false ∧ t.date.daysApart date ≤ 3 ∧
      ∃ c ∈ db.currencyOf t.accountId, col.Equal c currency
  (rows.insertionSort (closerTo date)).take 25

end Pfv
