import Pfv.Services.Transactions

/-!
# Recurring templates

Template management and the generation of due transactions
(`backend/app/services/recurring_service.py`).

## Main definitions

* `createRecurring`, `updateRecurring`, `stopRecurring`, `deleteRecurring`.
* `generateLoop`: the rows of one template up to a date; `generateDueTransactions`.

## Main results

* `generateLoop_terminates`: the loop ends with the template due after the date.
-/

namespace Pfv

/-! ### Template management -/

/-- The sizes of the columns of a template. -/
def RecurringTransaction.Flushable (r : RecurringTransaction) : Prop :=
  r.description.length ≤ 255 ∧ InColumn r.amount

instance (r : RecurringTransaction) : Decidable r.Flushable :=
  inferInstanceAs (Decidable (_ ∧ _))

/-- Flush a template. -/
def flushTemplate (r : RecurringTransaction) : Except ServiceError Unit :=
  raiseIf (¬r.Flushable) (.database "recurring_transactions")

def createRecurring (db : Db) (org : ℕ) (body : RecurringCreate) : Except ServiceError Db := do
  validateAccount db body.accountId org
  validateCategoryForType db body.categoryId org body.type.toTransactionType
  let r : RecurringTransaction :=
    { orgId := org, accountId := body.accountId, categoryId := body.categoryId
      description := body.description, amount := body.amount, type := body.type
      frequency := body.frequency, nextDueDate := body.nextDueDate, autoSettle := body.autoSettle }
  flushTemplate r
  pure { db with recurring := db.recurring.insert r }

/-- The template after the field updates of a request. -/
def editRecurring (r : RecurringTransaction) (body : RecurringUpdate) : RecurringTransaction :=
  { r with
    accountId := body.accountId.getD r.accountId
    categoryId := body.categoryId.getD r.categoryId
    description := body.description.getD r.description
    amount := body.amount.getD r.amount
    type := body.type.getD r.type
    frequency := body.frequency.getD r.frequency
    nextDueDate := body.nextDueDate.getD r.nextDueDate
    autoSettle := body.autoSettle.getD r.autoSettle
    isActive := body.isActive.getD r.isActive }

def updateRecurring (db : Db) (org id : ℕ) (body : RecurringUpdate) : Except ServiceError Db := do
  let r ← orRaise (db.recurring? id org) (.notFound "Recurring transaction")
  match body.accountId with
  | none => pure ()
  | some a => validateAccount db a org
  let edited := editRecurring r body
  if body.type.isSome ∨ body.categoryId.isSome then
    validateCategoryForType db edited.categoryId org edited.type.toTransactionType
  else pure ()
  flushTemplate edited
  pure { db with recurring := db.recurring.put edited }

/-- The pending transactions of a template that are dated today or later. -/
def pendingOfTemplate (db : Db) (org recurringId : ℕ) (today : Date) : List Transaction :=
  db.transactions.rows.filter fun t =>
    t.recurringId = some recurringId ∧ t.orgId = org ∧ t.status = .pending ∧ today ≤ t.date

/-- Bulk-delete pending future transactions for a recurring template. -/
def removePendingTransactions (db : Db) (org recurringId : ℕ) (today : Date) : Db :=
  db.deleteTransactions ((pendingOfTemplate db org recurringId today).map (·.id))

/-- Deactivate a template and delete any pending future transactions it generated. -/
def stopRecurring (db : Db) (org id : ℕ) (today : Date) : Except ServiceError Db := do
  let r ← orRaise (db.recurring? id org) (.notFound "Recurring transaction")
  let db := { db with recurring := db.recurring.put { r with isActive := false } }
  pure (removePendingTransactions db org id today)

/-- Clear the reference of a row to a deleted template: `ondelete="SET NULL"`. -/
def Transaction.detachFrom (recurringId : ℕ) (t : Transaction) : Transaction :=
  if t.recurringId = some recurringId then { t with recurringId := none } else t

/-- Permanently delete a template together with its pending future transactions. -/
def deleteRecurring (db : Db) (org id : ℕ) (today : Date) : Except ServiceError Db := do
  let _ ← orRaise (db.recurring? id org) (.notFound "Recurring transaction")
  let db := removePendingTransactions db org id today
  pure { db with
    recurring := db.recurring.filter (·.id ≠ id)
    transactions := db.transactions.mapRows (Transaction.detachFrom id) fun t => by
      unfold Transaction.detachFrom
      split_ifs <;> rfl }

/-! ### Generation -/

/-- The row a template generates when it falls due. -/
def RecurringTransaction.row (r : RecurringTransaction) : Transaction where
  orgId := r.orgId
  accountId := r.accountId
  categoryId := r.categoryId
  description := r.description
  amount := r.amount
  type := r.type.toTransactionType
  status := if r.autoSettle then .settled else .pending
  date := r.nextDueDate
  settledDate := if r.autoSettle then some r.nextDueDate else none
  recurringId := some r.id

/-- Generate the row of one due date. -/
def generateOne (db : Db) (org : ℕ) (r : RecurringTransaction) : Except ServiceError Db := do
  let db ← postSettled db org r.row
  let (db, _) ← insertPosted db r.row
  pure db

/-- Generate the rows of a template while it is due on a date, for at most `fuel` periods. -/
def generateLoop (org : ℕ) (today : Date) :
    ℕ → Db → RecurringTransaction → Except ServiceError (Db × RecurringTransaction)
  | 0, db, r => pure (db, r)
  | fuel + 1, db, r =>
      if r.nextDueDate ≤ today then do
        let db ← generateOne db org r
        generateLoop org today fuel db
          { r with nextDueDate := advanceDate r.nextDueDate r.frequency }
      else pure (db, r)

/-- The number of days from the due date of a template to a date: every period takes at least
one. -/
def dueDays (today : Date) (r : RecurringTransaction) : ℕ :=
  today.toOrdinal + 1 - r.nextDueDate.toOrdinal

/-- Generate the due rows of one template and store its next due date. -/
def generateTemplate (org : ℕ) (today : Date) (db : Db) (r : RecurringTransaction) :
    Except ServiceError Db := do
  let (db, r) ← generateLoop org today (dueDays today r) db r
  pure { db with recurring := db.recurring.put r }

/-- The templates of an organisation that are due on a date. -/
def dueTemplates (db : Db) (org : ℕ) (today : Date) : List RecurringTransaction :=
  db.recurring.rows.filter fun r => r.orgId = org ∧ r.isActive = true ∧ r.nextDueDate ≤ today

/-- Generate transactions for all due recurring templates of an organisation. -/
def generateDueTransactions (db : Db) (org : ℕ) (today : Date) : Except ServiceError Db :=
  (dueTemplates db org today).foldlM (generateTemplate org today) db

/-- The loop ends with the template due after the date. -/
theorem generateLoop_terminates {org : ℕ} {today : Date} {fuel : ℕ} {db db' : Db}
    {r r' : RecurringTransaction} (hfuel : dueDays today r ≤ fuel)
    (h : generateLoop org today fuel db r = .ok (db', r')) : today < r'.nextDueDate := by
  induction fuel generalizing db r with
  | zero =>
    rw [generateLoop, pure_eq_ok, Prod.mk.injEq] at h
    rw [← h.2, Date.lt_iff]
    unfold dueDays at hfuel
    omega
  | succ fuel ih =>
    unfold generateLoop at h
    split_ifs at h with hdue
    · obtain ⟨db₁, -, hrest⟩ := bind_eq_ok.mp h
      refine ih ?_ hrest
      have hlater := Date.lt_iff.mp (Date.lt_advanceDate r.nextDueDate r.frequency)
      rw [Date.le_iff] at hdue
      simp only [dueDays] at hfuel ⊢
      omega
    · rw [pure_eq_ok, Prod.mk.injEq] at h
      rw [← h.2]
      exact Nat.lt_of_not_le hdue

end Pfv
