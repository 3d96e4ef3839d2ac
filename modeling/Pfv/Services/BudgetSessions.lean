import Pfv.Base.Session
import Pfv.Services.Budgets

/-!
# Requests on budgets that interleave

Transfers between budgets and the other writes of budgets, statement by statement
(`backend/app/services/budget_service.py`). The transaction of a request starts with a read that was
made for its user, and what it reads later without a lock is read from the snapshot of that moment;
a locking read and the unique key on organisation, category and period see what is committed. A
transfer locks its source. It reads the target from the snapshot and writes it back later; when
there is none, it inserts one, and when that is refused, it is rolled back, locks the source again
and reads the target anew.

A row that a request has inserted is shown to others at its commit, and until then its key is
locked. What a commit writes over a row that others have locked, it writes when they have ended. A
period that a budget is created or copied for has been resolved before, and the figures of the
responses, which are read after the commit, are left out.

## Main definitions

* `BudgetTask`: the requests; `BudgetPhase`: where one of them is.
* `BudgetWrite`, `BudgetWrite.write`: what a request commits.
* `BudgetPhase.advance`, `budgetSessions`: the steps.
-/

namespace Pfv

/-! ### Keys and locks -/

/-- The columns of `uq_budget_org_cat_period`. -/
structure BudgetKey where
  orgId : ℕ
  categoryId : ℕ
  periodStart : Date
  deriving DecidableEq

def Budget.key (b : Budget) : BudgetKey := ⟨b.orgId, b.categoryId, b.periodStart⟩

/-- A row that is locked, or the key of a row that was inserted. -/
inductive BudgetLock
  | row (id : ℕ)
  | key (k : BudgetKey)
  deriving DecidableEq

abbrev BudgetShared := Locked Planning BudgetLock

/-- A committed budget has a key. -/
def KeyTaken (db : Planning) (k : BudgetKey) : Prop :=
  ∃ b ∈ db.budgets.rows, b.key = k

instance (db : Planning) (k : BudgetKey) : Decidable (KeyTaken db k) :=
  inferInstanceAs (Decidable (∃ b ∈ db.budgets.rows, b.key = k))

/-! ### Writes -/

/-- What a request commits. An amount is computed from a budget as the request has read it. -/
inductive BudgetWrite
  | move (source target : Budget) (amount : ℚ)
  | moveNew (source target : Budget) (amount : ℚ)
  | set (budget : Budget) (amount : ℚ)
  | remove (budget : Budget)
  | insert (new : List Budget)

/-- `UPDATE budgets SET amount = … WHERE id = …`; a row that is gone fails the flush. -/
def setBudgetAmount (db : Planning) (id : ℕ) (amount : ℚ) : Option Planning :=
  (db.budgets.get? id).map fun b => putBudget db { b with amount := round amount }

def BudgetWrite.write (db : Planning) : BudgetWrite → Option Planning
  | .move source target amount =>
      (setBudgetAmount db target.id (target.amount + amount)).bind fun db =>
        setBudgetAmount db source.id (source.amount - amount)
  | .moveNew source target amount =>
      if KeyTaken db target.key then none
      else setBudgetAmount (addBudget db target) source.id (source.amount - amount)
  | .set budget amount => setBudgetAmount db budget.id amount
  | .remove budget => some { db with budgets := db.budgets.filter (·.id ≠ budget.id) }
  | .insert new => if ∃ b ∈ new, KeyTaken db b.key then none else some (new.foldl addBudget db)

/-- The locks that a write needs. -/
def BudgetWrite.locks : BudgetWrite → List BudgetLock
  | .move source target _ => [.row source.id, .row target.id]
  | .moveNew source target _ => [.row source.id, .key target.key]
  | .set budget _ => [.row budget.id]
  | .remove budget => [.row budget.id]
  | .insert new => new.map (.key ·.key)

/-! ### Requests -/

inductive BudgetTask
  | transfer (org : ℕ) (body : BudgetTransfer)
  | update (org budgetId : ℕ) (body : BudgetUpdate)
  | delete (org budgetId : ℕ)
  | create (org : ℕ) (body : BudgetCreate) (period : BillingPeriod)
  | copy (org : ℕ) (period : BillingPeriod)

/-- Where a request is: before its transaction starts, before it reads or locks, before an insert,
or before its commit with the locks it has. -/
inductive BudgetPhase
  | starting (t : BudgetTask)
  | reading (t : BudgetTask) (snapshot : Planning)
  | inserting (org : ℕ) (body : BudgetTransfer) (source : Budget)
  | retrying (org : ℕ) (body : BudgetTransfer)
  | copying (todo new : List Budget)
  | committing (own : List BudgetLock) (w : BudgetWrite)

/-- The target that a transfer inserts. -/
def BudgetTransfer.newTarget (body : BudgetTransfer) (org : ℕ) (source : Budget) : Budget where
  orgId := org
  categoryId := body.toCategoryId
  amount := round body.amount
  periodStart := source.periodStart
  periodEnd := source.periodEnd

/-- The reads of a transfer that has locked its source: the source is read as committed, its target
and the target's category from the snapshot. -/
def readTransfer (db snapshot : Planning) (org : ℕ) (body : BudgetTransfer) :
    Except ServiceError (Budget × Option Budget) := do
  let source ← orRaise (budget? db body.fromBudgetId org) (.notFound "Source budget")
  checkTransfer snapshot org source body
  pure (source, budgetFor? snapshot org body.toCategoryId source.periodStart)

/-- The reads of a transfer that was rolled back and has locked its source again; `scalar_one` finds
a row or fails. -/
def rereadTransfer (db : Planning) (org : ℕ) (body : BudgetTransfer) :
    Except ServiceError (Budget × Budget) := do
  let source ← orRaise (budget? db body.fromBudgetId org)
    (.database "No row was found when one was required")
  raiseIf ((source.amount : ℚ) < body.amount) (.validation "Transfer amount exceeds source budget")
  let target ← orRaise (budgetFor? db org body.toCategoryId source.periodStart)
    (.database "No row was found when one was required")
  pure (source, target)

/-- The budget that a request creates in a period. -/
def BudgetCreate.budget (body : BudgetCreate) (org : ℕ) (period : BillingPeriod) : Budget where
  orgId := org
  categoryId := body.categoryId
  amount := round body.amount
  periodStart := period.startDate
  periodEnd := period.endDate

/-- The checks of a request that creates a budget. -/
def readCreate (snapshot : Planning) (org : ℕ) (body : BudgetCreate) (period : BillingPeriod) :
    Except ServiceError Budget := do
  checkBudgetCategory snapshot org body.categoryId
  raiseIf ((budgetFor? snapshot org body.categoryId period.startDate).isSome = true)
    (.conflict "Budget already exists for this category in the current period")
  pure (body.budget org period)

/-- The budget of a plan item in a period. -/
def ForecastPlanItem.budget (item : ForecastPlanItem) (org : ℕ) (period : BillingPeriod) :
    Budget where
  orgId := org
  categoryId := item.categoryId
  amount := item.plannedAmount
  periodStart := period.startDate
  periodEnd := period.endDate

/-- The budgets that a copy inserts: those of the expense items of the plan whose category has
none. -/
def readCopy (snapshot : Planning) (org : ℕ) (period : BillingPeriod) :
    Except ServiceError (List Budget) := do
  let plan ← orRaise (planForPeriod? snapshot.toBooks org period.id)
    (.validation ("No forecast plan exists for the current period. " ++
      "Create one on the Forecasts page first."))
  pure (((planItems snapshot.toBooks plan.id).filter fun item => item.type = .expense ∧
    budgetFor? snapshot org item.categoryId period.startDate = none).map (·.budget org period))

/-- A budget whose amount is set, when that is a change. -/
def readUpdate (snapshot : Planning) (org budgetId : ℕ) (body : BudgetUpdate) :
    Option BudgetWrite :=
  (budget? snapshot budgetId org).bind fun budget =>
    (body.amount.filter fun a => a ≠ (budget.amount : ℚ)).map (.set budget)

/-! ### Steps -/

open Locking

/-- The reads of a request, for a transfer with the lock on its source. -/
def BudgetTask.read (s : BudgetShared) (snapshot : Planning) :
    BudgetTask → BudgetShared × Option BudgetPhase
  | .transfer org body =>
      if Blocked s [] [.row body.fromBudgetId] then
        (s, some (.reading (.transfer org body) snapshot))
      else
        match readTransfer s.state snapshot org body with
        | .error _ => (s, none)
        | .ok (source, some target) =>
            ({ s with held := .row source.id :: s.held },
              some (.committing [.row source.id] (.move source target body.amount)))
        | .ok (source, none) =>
            ({ s with held := .row source.id :: s.held }, some (.inserting org body source))
  | .update org budgetId body =>
      (s, (readUpdate snapshot org budgetId body).map (.committing []))
  | .delete org budgetId =>
      (s, (budget? snapshot budgetId org).map fun b => .committing [] (.remove b))
  | .create org body period =>
      match readCreate snapshot org body period with
      | .error _ => (s, none)
      | .ok b => (s, some (.committing [] (.insert [b])))
  | .copy org period =>
      match readCopy snapshot org period with
      | .error _ => (s, none)
      | .ok todo => (s, some (.copying todo []))

/-- The next step of a request. -/
def BudgetPhase.advance (s : BudgetShared) : BudgetPhase → BudgetShared × Option BudgetPhase
  | .starting t => (s, some (.reading t s.state))
  | .reading t snapshot => t.read s snapshot
  | .inserting org body source =>
      let target := body.newTarget org source
      if Blocked s [] [.key target.key] then (s, some (.inserting org body source))
      else if KeyTaken s.state target.key then
        -- the rollback releases the source
        ({ s with held := s.held.filter (· ≠ .row source.id) }, some (.retrying org body))
      else
        ({ s with held := .key target.key :: s.held },
          some (.committing [.key target.key, .row source.id] (.moveNew source target body.amount)))
  | .retrying org body =>
      if Blocked s [] [.row body.fromBudgetId] then (s, some (.retrying org body))
      else
        match rereadTransfer s.state org body with
        | .error _ => (s, none)
        | .ok (source, target) =>
            ({ s with held := .row source.id :: s.held },
              some (.committing [.row source.id] (.move source target body.amount)))
  | .copying [] new => (s, some (.committing (new.map (.key ·.key)) (.insert new)))
  | .copying (b :: todo) new =>
      if Blocked s (new.map (.key ·.key)) [.key b.key] then (s, some (.copying (b :: todo) new))
      -- a savepoint whose insert is refused is rolled back alone
      else if KeyTaken s.state b.key ∨ b.key ∈ new.map Budget.key then
        (s, some (.copying todo new))
      else ({ s with held := .key b.key :: s.held }, some (.copying todo (new ++ [b])))
  | .committing own w =>
      if Blocked s own w.locks then (s, some (.committing own w))
      else
        ({ state := (w.write s.state).getD s.state, held := s.held.filter (· ∉ own) }, none)

/-- The requests on the budgets of any organisations. -/
def budgetSessions : Sessions BudgetShared BudgetTask BudgetPhase where
  start := .starting
  advance := BudgetPhase.advance

end Pfv
