import Pfv.Services.Transactions

/-!
# Accounts

Account creation (`backend/app/routers/accounts.py`), the manual adjustment of a balance and the
consistency check of a balance (`backend/app/services/transaction_service.py`).

## Main definitions

* `createAccount`: the balance starts at the opening balance.
* `adjustAccountBalance`: set a balance by a synthetic transaction for the difference.
* `reconcileAccount`: compare the stored balance with the sum of the settled rows.
-/

namespace Pfv

/-! ### Creation -/

/-- The row of a new account: the live balance is seeded from the opening balance. -/
def AccountCreate.row (body : AccountCreate) (org : ℕ) (today : Date) : Account where
  orgId := org
  accountTypeId := body.accountTypeId
  name := body.name
  balance := body.openingBalance
  currency := body.currency
  closeDay := body.closeDay
  openingBalance := body.openingBalance
  openingBalanceDate := body.openingBalanceDate.getD today

def createAccount (db : Db) (org : ℕ) (body : AccountCreate) (today : Date) :
    Except ServiceError Db := do
  let targetType ← orRaise ((db.accountTypes.get? body.accountTypeId).filter (·.orgId = org))
    (.httpException 400 "Invalid account type")
  raiseIf (targetType.slug = some "credit_card" ∧ body.closeDay = none)
    (.httpException 400 "close_day is required when creating a credit_card account")
  raiseIf (targetType.slug ≠ some "credit_card" ∧ body.closeDay ≠ none)
    (.httpException 400 "close_day is only allowed on credit_card accounts")
  pure { db with accounts := db.accounts.insert (body.row org today) }

/-! ### Manual balance adjustment -/

/-- The system category of balance adjustments, created when it is missing. -/
def getOrCreateBalanceAdjustmentCategory (db : Db) (org : ℕ) : Db × ℕ :=
  match db.categories.rows.find? fun c =>
      c.slug = some "balance-adjustment" ∧ c.orgId = org ∧ c.isSystem = true with
  | some cat => (db, cat.id)
  | none =>
      let newCat : Category :=
        { orgId := org, name := "Balance Adjustment", slug := some "balance-adjustment"
          type := .both, isSystem := true }
      ({ db with categories := db.categories.insert newCat }, db.categories.next)

/-- A number of cents as the database returns the decimal. -/
def formatCents (c : ℤ) : String :=
  (if c < 0 then "-" else "") ++ toString (c.natAbs / 100) ++ "." ++
    (if c.natAbs % 100 < 10 then "0" else "") ++ toString (c.natAbs % 100)

/-- The description of the row of an adjustment, cut to the length of the column. -/
def adjustmentDescription (oldBalance : ℤ) (body : BalanceAdjustmentRequest) : String :=
  let text := "Balance adjustment: " ++ formatCents oldBalance ++ " -> " ++ body.targetText
  let text :=
    match body.reason with
    | none => text
    | some reason => if reason = "" then text else text ++ " (" ++ reason ++ ")"
  String.ofList (text.toList.take 255)

/-- The body of the row an adjustment creates, when the difference fits its schema. -/
def adjustmentBody (accountId categoryId : ℕ) (oldBalance : ℤ) (body : BalanceAdjustmentRequest)
    (today : Date) : Except ServiceError TransactionCreate := do
  let delta := body.targetBalance - oldBalance
  let description ← orRaise (Description.ofRaw (adjustmentDescription oldBalance body))
    (.schema "description")
  let amount ← orRaise (Amount.ofCents |delta|) (.schema "amount")
  pure
    { accountId := accountId, categoryId := categoryId, description := description
      amount := amount, type := if 0 < delta then .income else .expense, status := .settled
      date := today, settledDate_le := by simp }

/-- Set the balance of an account by a synthetic transaction for the difference. Returns the row,
the old and the new balance. The row of the audit log is staged in the same database transaction. -/
def adjustAccountBalance (db : Db) (org accountId : ℕ) (body : BalanceAdjustmentRequest)
    (today : Date) : Except ServiceError (Db × Transaction) := do
  let acct ← getAccountForUpdate db accountId org
  raiseIf (body.targetBalance - acct.balance = 0) (.conflict "No change to apply")
  let (db, categoryId) := getOrCreateBalanceAdjustmentCategory db org
  let txBody ← adjustmentBody accountId categoryId acct.balance body today
  createTransactionNoCommit db org txBody false true none

/-! ### Consistency of a balance -/

/-- The sum of the amounts of the settled rows of one type on an account. -/
def settledTotal (db : Db) (org accountId : ℕ) (type : TransactionType) : ℤ :=
  ((db.transactions.rows.filter fun t =>
    t.accountId = accountId ∧ t.orgId = org ∧ t.type = type ∧ t.status = .settled).map
      (·.amount)).sum

/-- The stored balance, the computed balance and whether they agree. -/
def reconcileAccount (db : Db) (org : ℕ) (account : Account) : ℤ × ℤ × Bool :=
  let computed := settledTotal db org account.id .income - settledTotal db org account.id .expense
  (account.balance, computed, account.balance = computed)

end Pfv
