import Pfv.Models.Schemas

/-!
# Validation and balance logic

The checks and the balance mutations all ledger operations share
(`backend/app/services/transaction_service.py`, "Validation" and "Balance logic"). Only settled
transactions affect a balance.

## Main definitions

* `validateAccount`, `validateCategory`, `validateCategoryForType`, `validateTransferCategory`,
  `getAccountForUpdate`.
* `applyBalance`, `revertBalance`, and `applySettled`, `revertSettled`, `postSettled`, which leave
  pending rows alone.
* `insertTransaction`, `insertPosted`, `saveTransaction`: writes of a transaction with the checks of
  a flush.

## Main results

* `applySettled_eq_ok`, `postSettled_eq_ok`, `revertSettled_eq_ok`: a settled row is added to, or
  taken off, the balance of its account by its signed amount, a pending one by nothing.
-/

namespace Pfv

/-! ### Validation -/

/-- Check that an account exists and belongs to the organisation. -/
def validateAccount (db : Db) (accountId org : ℕ) : Except ServiceError Unit :=
  raiseIf ((db.account? accountId org).isNone = true) (.validation "Invalid account")

def validateCategory (db : Db) (categoryId org : ℕ) : Except ServiceError Unit :=
  raiseIf ((db.category? categoryId org).isNone = true) (.validation "Invalid category")

/-- Compatibility between a category type and a transaction type. -/
def categoryTypeMatches : CategoryType → TransactionType → Bool
  | .both, _ => true
  | .income, .income => true
  | .expense, .expense => true
  | _, _ => false

/-- Validate that a category belongs to the organisation and that its type, and the type of its
master, admit transactions of a type. -/
def validateCategoryForType (db : Db) (categoryId org : ℕ) (txType : TransactionType) :
    Except ServiceError Unit := do
  let cat ← orRaise (db.category? categoryId org) (.validation "Invalid category")
  raiseIf (categoryTypeMatches cat.type txType = false)
    (.validation ("Category type (" ++ cat.type.value ++ ") does not match transaction type (" ++
      txType.value ++ ")"))
  match cat.parentId.bind fun p => db.category? p org with
  | none => pure ()
  | some parent =>
      raiseIf (categoryTypeMatches parent.type txType = false)
        (.validation ("Subcategory's master type (" ++ parent.type.value ++
          ") does not match transaction type (" ++ txType.value ++ ")"))

/-- Validate a user-supplied transfer category: both legs share it, so it must admit both types. -/
def validateTransferCategory (db : Db) (categoryId org : ℕ) : Except ServiceError Unit := do
  let cat ← orRaise (db.category? categoryId org) (.validation "Invalid category")
  raiseIf (cat.type ≠ .both)
    (.validation ("Transfer category must accept both income and expense (got type=" ++
      cat.type.value ++ ")"))

/-- The locked account row. -/
def getAccountForUpdate (db : Db) (accountId org : ℕ) : Except ServiceError Account :=
  orRaise (db.account? accountId org) (.validation "Invalid account")

/-- Lock several accounts one after another. -/
def lockAccounts (db : Db) (org : ℕ) : List ℕ → Except ServiceError Unit
  | [] => pure ()
  | a :: l => do
      let _ ← getAccountForUpdate db a org
      lockAccounts db org l

/-! ### Balance logic -/

def applyBalance (db : Db) (accountId : ℕ) (amount : ℤ) : TransactionType → Except ServiceError Db
  | .transfer => .error (.validation "Cannot apply balance for TRANSFER type directly")
  | .income => .ok (db.credit accountId amount)
  | .expense => .ok (db.credit accountId (-amount))

def revertBalance (db : Db) (accountId : ℕ) (amount : ℤ) : TransactionType → Except ServiceError Db
  | .transfer => .error (.validation "Cannot revert balance for TRANSFER type directly")
  | .income => .ok (db.credit accountId (-amount))
  | .expense => .ok (db.credit accountId amount)

/-- Apply a row to the balance of its account when it is settled. -/
def applySettled (db : Db) (t : Transaction) : Except ServiceError Db :=
  if t.status = .settled then applyBalance db t.accountId t.amount t.type else pure db

/-- Take a row off the balance of its account when it is settled. -/
def revertSettled (db : Db) (t : Transaction) : Except ServiceError Db :=
  if t.status = .settled then revertBalance db t.accountId t.amount t.type else pure db

/-- Lock the account of a settled row and apply the row to its balance. -/
def postSettled (db : Db) (org : ℕ) (t : Transaction) : Except ServiceError Db :=
  if t.status = .settled then do
    let acct ← getAccountForUpdate db t.accountId org
    applyBalance db acct.id t.amount t.type
  else pure db

/-! ### Writing transactions -/

/-- Flush a new transaction. -/
def insertTransaction (db : Db) (t : Transaction) : Except ServiceError (Db × Transaction) := do
  raiseIf (¬t.Flushable) (.database "transactions")
  pure (db.addTransaction t, { t with id := db.transactions.next })

/-- Flush a new transaction together with the balance that it has changed when it is settled. -/
def insertPosted (db : Db) (t : Transaction) : Except ServiceError (Db × Transaction) := do
  raiseIf (t.status = .settled ∧ ¬db.BalanceFits t.accountId) (.database "accounts")
  insertTransaction db t

/-- Flush a changed transaction. -/
def saveTransaction (db : Db) (t : Transaction) : Except ServiceError Db := do
  raiseIf (¬t.Flushable) (.database "transactions")
  pure (db.putTransaction t)

/-! ### What the steps do -/

@[simp] theorem validateAccount_eq_ok {db : Db} {accountId org : ℕ} {x : Unit} :
    validateAccount db accountId org = .ok x ↔ ∃ a, db.account? accountId org = some a := by
  rw [validateAccount, raiseIf_eq_ok, Option.isNone_iff_eq_none, ← ne_eq,
    Option.ne_none_iff_exists']

@[simp] theorem getAccountForUpdate_eq_ok {db : Db} {accountId org : ℕ} {a : Account} :
    getAccountForUpdate db accountId org = .ok a ↔ db.account? accountId org = some a :=
  orRaise_eq_ok

theorem lockAccounts_eq_ok {db : Db} {org : ℕ} {l : List ℕ} {x : Unit} :
    lockAccounts db org l = .ok x ↔ ∀ a ∈ l, ∃ acct, db.account? a org = some acct := by
  induction l with
  | nil => simp [lockAccounts, pure_eq_ok]
  | cons a l ih => simp [lockAccounts, bind_eq_ok, ih]

theorem applyBalance_eq_ok {db db' : Db} {accountId : ℕ} {amount : ℤ} {ty : TransactionType} :
    applyBalance db accountId amount ty = .ok db' ↔
      ty ≠ .transfer ∧ db' = db.credit accountId (ty.signed amount) := by
  cases ty <;> simp [applyBalance, TransactionType.signed, eq_comm]

theorem revertBalance_eq_ok {db db' : Db} {accountId : ℕ} {amount : ℤ} {ty : TransactionType} :
    revertBalance db accountId amount ty = .ok db' ↔
      ty ≠ .transfer ∧ db' = db.credit accountId (-ty.signed amount) := by
  cases ty <;> simp [revertBalance, TransactionType.signed, eq_comm]

theorem Db.credit_zero (db : Db) (accountId : ℕ) : db.credit accountId 0 = db := by
  have h : db.accounts.modify accountId (fun a => { a with balance := a.balance + 0 })
      (fun _ => rfl) = db.accounts := by
    refine Table.ext ?_ rfl
    refine Eq.trans (List.map_congr_left fun a _ => ?_) (List.map_id _)
    split_ifs <;> simp
  rw [Db.credit, h]

/-- Applying a row adds its settled amount to the balance of its account. -/
theorem applySettled_eq_ok {db db' : Db} {t : Transaction} :
    applySettled db t = .ok db' ↔
      (t.status = .settled → t.type ≠ .transfer) ∧ db' = db.credit t.accountId t.settledAmount := by
  unfold applySettled Transaction.settledAmount
  split_ifs with h
  · simp [applyBalance_eq_ok, h]
  · rw [pure_eq_ok, Db.credit_zero, eq_comm]
    simp [h]

theorem Db.account?_eq_some {db : Db} {id org : ℕ} {a : Account} :
    db.account? id org = some a ↔ db.accounts.get? id = some a ∧ a.orgId = org := by
  simp [Db.account?, Option.filter_eq_some_iff]

/-- Posting a row adds its settled amount to the balance of its account. -/
theorem postSettled_eq_ok {db db' : Db} {org : ℕ} {t : Transaction} :
    postSettled db org t = .ok db' ↔
      (t.status = .settled →
        (∃ a, db.account? t.accountId org = some a) ∧ t.type ≠ .transfer) ∧
        db' = db.credit t.accountId t.settledAmount := by
  unfold postSettled Transaction.settledAmount
  split_ifs with h
  · simp only [bind_eq_ok, getAccountForUpdate_eq_ok, applyBalance_eq_ok, h, true_implies]
    constructor
    · rintro ⟨a, ha, hty, hdb⟩
      have hid : a.id = t.accountId := Table.get?_id (Db.account?_eq_some.mp ha).1
      exact ⟨⟨⟨a, ha⟩, hty⟩, hid ▸ hdb⟩
    · rintro ⟨⟨⟨a, ha⟩, hty⟩, hdb⟩
      have hid : a.id = t.accountId := Table.get?_id (Db.account?_eq_some.mp ha).1
      exact ⟨a, ha, hty, hid.symm ▸ hdb⟩
  · rw [pure_eq_ok, Db.credit_zero, eq_comm]
    simp [h]

/-- Reverting a row takes its settled amount off the balance of its account. -/
theorem revertSettled_eq_ok {db db' : Db} {t : Transaction} :
    revertSettled db t = .ok db' ↔
      (t.status = .settled → t.type ≠ .transfer) ∧
        db' = db.credit t.accountId (-t.settledAmount) := by
  unfold revertSettled Transaction.settledAmount
  split_ifs with h
  · simp [revertBalance_eq_ok, h]
  · rw [pure_eq_ok, neg_zero, Db.credit_zero, eq_comm]
    simp [h]

theorem insertTransaction_eq_ok {db db' : Db} {t tx : Transaction} :
    insertTransaction db t = .ok (db', tx) ↔
      t.Flushable ∧ db' = db.addTransaction t ∧ tx = { t with id := db.transactions.next } := by
  rw [insertTransaction, raiseIf_bind_eq_ok, pure_eq_ok, not_not, Prod.mk.injEq,
    eq_comm (a := db'), eq_comm (a := tx)]

theorem insertPosted_eq_ok {db db' : Db} {t tx : Transaction} :
    insertPosted db t = .ok (db', tx) ↔
      (t.status = .settled → db.BalanceFits t.accountId) ∧ t.Flushable ∧
        db' = db.addTransaction t ∧ tx = { t with id := db.transactions.next } := by
  rw [insertPosted, raiseIf_bind_eq_ok, insertTransaction_eq_ok, not_and, not_not]

theorem saveTransaction_eq_ok {db db' : Db} {t : Transaction} :
    saveTransaction db t = .ok db' ↔ t.Flushable ∧ db' = db.putTransaction t := by
  rw [saveTransaction, raiseIf_bind_eq_ok, pure_eq_ok, not_not, eq_comm (a := db')]

end Pfv
