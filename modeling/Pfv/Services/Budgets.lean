import Pfv.Services.Forecasts
import Pfv.Services.Periods

/-!
# Budgets

Budgets of master categories and what was spent against them
(`backend/app/services/budget_service.py`). Stored amounts are whole cents; a request may give a
fraction of a cent, which the column rounds while the response still shows it. The used share in
percent, a floating-point number, is left out of the responses.

## Main definitions

* `computeSpent`: the settled expenses of a master category.
* `listBudgets`, `createBudget`, `updateBudget`, `transferBudget`, `deleteBudget`,
  `createBudgetsFromForecast`.
-/

namespace Pfv

/-! ### Schemas -/

structure BudgetCreate where
  categoryId : ℕ
  amount : ℚ
  amount_pos : 0 < amount

structure BudgetUpdate where
  amount : Option ℚ := none
  amount_pos : ∀ a ∈ amount, 0 < a

structure BudgetTransfer where
  fromBudgetId : ℕ
  toCategoryId : ℕ
  amount : ℚ
  amount_pos : 0 < amount

structure BudgetResponse where
  id : ℕ
  categoryId : ℕ
  categoryName : String
  amount : ℚ
  spent : ℤ
  remaining : ℚ
  periodStart : Date
  periodEnd : Option Date
  deriving DecidableEq

/-! ### Spending -/

/-- A row counts against a master category: it is an expense of the category or of one of its
subcategories, settled and reportable. -/
def Transaction.SpendsOn (books : Books) (org masterCategoryId : ℕ) (t : Transaction) : Prop :=
  t.orgId = org ∧
    (t.categoryId = masterCategoryId ∨
      ∃ c ∈ books.categories.rows, c.id = t.categoryId ∧ c.parentId = some masterCategoryId ∧
        c.orgId = org) ∧
    t.type = .expense ∧ t.status = .settled ∧ t.isReportable = true

instance (books : Books) (org masterCategoryId : ℕ) (t : Transaction) :
    Decidable (t.SpendsOn books org masterCategoryId) :=
  inferInstanceAs (Decidable (_ ∧ (_ ∨ ∃ c ∈ books.categories.rows, _) ∧ _ ∧ _ ∧ _))

/-- Sum settled expense transactions for a master category and all its subcategories. -/
def computeSpent (books : Books) (org masterCategoryId : ℕ) (periodStart : Date)
    (periodEnd : Option Date) : ℤ :=
  ((books.transactions.rows.filter fun t =>
    t.SpendsOn books org masterCategoryId ∧ t.SettledWithin periodStart periodEnd).map
      (·.amount)).sum

/-- The response for a budget that shows an amount. -/
def toResponse (db : Planning) (budget : Budget) (amount : ℚ) (spent : ℤ) : BudgetResponse where
  id := budget.id
  categoryId := budget.categoryId
  categoryName := ((db.categories.get? budget.categoryId).map (·.name)).getD ""
  amount := amount
  spent := spent
  remaining := amount - spent
  periodStart := budget.periodStart
  periodEnd := budget.periodEnd

/-! ### Storage -/

/-- The budget of a category for a period. -/
def budgetFor? (db : Planning) (org categoryId : ℕ) (periodStart : Date) : Option Budget :=
  db.budgets.rows.find? fun b =>
    b.orgId = org ∧ b.categoryId = categoryId ∧ b.periodStart = periodStart

def budget? (db : Planning) (id org : ℕ) : Option Budget :=
  (db.budgets.get? id).filter (·.orgId = org)

def addBudget (db : Planning) (b : Budget) : Planning :=
  { db with budgets := db.budgets.insert b }

def putBudget (db : Planning) (b : Budget) : Planning :=
  { db with budgets := db.budgets.put b }

/-! ### Operations -/

/-- The budgets of a period with what was spent, by category. A period that does not exist has
none. -/
def budgetsOfPeriod (db : Planning) (org : ℕ) (period : BillingPeriod) : List BudgetResponse :=
  ((db.budgets.rows.filter fun b => b.orgId = org ∧ b.periodStart = period.startDate).insertionSort
    fun b c => b.categoryId ≤ c.categoryId).map fun b =>
      toResponse db b b.amount
        (computeSpent db.toBooks org b.categoryId period.startDate period.endDate)

/-- List budgets for a billing period, by default the open one. -/
def listBudgets (db : Planning) (org : ℕ) (today : Date) (periodStart : Option Date) :
    Outcome (List BudgetResponse) :=
  match resolvePeriod db org today periodStart with
  | .error (.validation _) => (db, .ok [])
  | .error e => (db, .error e)
  | .ok (db, period) => (db, .ok (budgetsOfPeriod db org period))

/-- The category a budget may be created for. -/
def checkBudgetCategory (db : Planning) (org categoryId : ℕ) : Except ServiceError Unit := do
  let cat ← orRaise (db.category? categoryId org) (.validation "Invalid category")
  raiseIf (cat.parentId ≠ none)
    (.validation "Budgets can only be set for master categories, not subcategories")

/-- Create a budget for a period that was resolved. -/
def createBudgetIn (org : ℕ) (body : BudgetCreate) (db : Planning) (period : BillingPeriod) :
    Except ServiceError (Planning × BudgetResponse) := do
  raiseIf ((budgetFor? db org body.categoryId period.startDate).isSome = true)
    (.conflict "Budget already exists for this category in the current period")
  let budget : Budget :=
    { id := db.budgets.next, orgId := org, categoryId := body.categoryId
      amount := round body.amount, periodStart := period.startDate
      periodEnd := period.endDate }
  pure (addBudget db budget, toResponse db budget body.amount
    (computeSpent db.toBooks org budget.categoryId period.startDate period.endDate))

/-- Create a budget for a period. Only master categories allowed. -/
def createBudget (db : Planning) (org : ℕ) (today : Date) (body : BudgetCreate)
    (periodStart : Option Date) : Outcome BudgetResponse :=
  match checkBudgetCategory db org body.categoryId with
  | .error e => (db, .error e)
  | .ok () =>
      match resolvePeriod db org today periodStart with
      | .error e => (db, .error e)
      | .ok (db, period) =>
          match createBudgetIn org body db period with
          | .error e => (db, .error e)
          | .ok (db', response) => (db', .ok response)

/-- The end up to which `updateBudget` and `transferBudget` count: the live one when the period of
the budget is the open one, else the copy stored on the budget. -/
def countedEnd (current : BillingPeriod) (b : Budget) : Option Date :=
  if current.startDate = b.periodStart then current.endDate else b.periodEnd

/-- Change the amount of a budget. The change is committed before the open period is read. -/
def updateBudget (db : Planning) (org : ℕ) (today : Date) (budgetId : ℕ) (body : BudgetUpdate) :
    Outcome BudgetResponse :=
  match budget? db budgetId org with
  | none => (db, .error (.notFound "Budget"))
  | some budget =>
      let amount := body.amount.getD budget.amount
      let updated := { budget with amount := round amount }
      withCurrentPeriod (putBudget db updated) org today fun db current =>
        pure (db, toResponse db updated amount
          (computeSpent db.toBooks org updated.categoryId updated.periodStart
            (countedEnd current updated)))

/-- The checks of a transfer on its source and on its target category. -/
def checkTransfer (db : Planning) (org : ℕ) (source : Budget) (body : BudgetTransfer) :
    Except ServiceError Unit := do
  raiseIf ((source.amount : ℚ) < body.amount) (.validation "Transfer amount exceeds source budget")
  let targetCat ← orRaise (db.category? body.toCategoryId org)
    (.validation "Invalid target category")
  raiseIf (targetCat.parentId ≠ none) (.validation "Target must be a master category")
  raiseIf (targetCat.id = source.categoryId) (.validation "Cannot transfer to the same category")

/-- The target of a transfer after it, and the amount the response shows: the budget of the category
in the period of the source, or a new one. -/
def transferTarget (db : Planning) (org : ℕ) (source : Budget) (body : BudgetTransfer) :
    Planning × Budget × ℚ :=
  match budgetFor? db org body.toCategoryId source.periodStart with
  | some target =>
      let amount : ℚ := target.amount + body.amount
      let target := { target with amount := round amount }
      (putBudget db target, target, amount)
  | none =>
      let target : Budget :=
        { id := db.budgets.next, orgId := org, categoryId := body.toCategoryId
          amount := round body.amount, periodStart := source.periodStart
          periodEnd := source.periodEnd }
      (addBudget db target, target, body.amount)

/-- The database after a transfer, with both budgets and the amounts the response shows. -/
def applyTransfer (db : Planning) (org : ℕ) (source : Budget) (body : BudgetTransfer) :
    Planning × (Budget × ℚ) × (Budget × ℚ) :=
  let sourceAmount : ℚ := source.amount - body.amount
  let (db, target) := transferTarget db org source body
  let source := { source with amount := round sourceAmount }
  (putBudget db source, (source, sourceAmount), target)

/-- Transfer allocation from one budget to another within the same period. -/
def transferBudget (db : Planning) (org : ℕ) (today : Date) (body : BudgetTransfer) :
    Outcome (List BudgetResponse) :=
  match budget? db body.fromBudgetId org with
  | none => (db, .error (.notFound "Source budget"))
  | some source =>
      match checkTransfer db org source body with
      | .error e => (db, .error e)
      | .ok () =>
          let (db, source, target) := applyTransfer db org source body
          withCurrentPeriod db org today fun db current =>
            let response := fun b : Budget × ℚ => toResponse db b.1 b.2
              (computeSpent db.toBooks org b.1.categoryId b.1.periodStart
                (countedEnd current source.1))
            pure (db, [response source, response target])

def deleteBudget (db : Planning) (org budgetId : ℕ) : Outcome Unit :=
  match budget? db budgetId org with
  | none => (db, .error (.notFound "Budget"))
  | some budget => ({ db with budgets := db.budgets.filter (·.id ≠ budget.id) }, .ok ())

/-- Insert the budget of one plan item; a category that has one already is skipped. -/
def insertFromItem (org : ℕ) (period : BillingPeriod) (db : Planning) (item : ForecastPlanItem) :
    Planning :=
  if (budgetFor? db org item.categoryId period.startDate).isSome then db
  else
    addBudget db
      { orgId := org, categoryId := item.categoryId, amount := item.plannedAmount
        periodStart := period.startDate, periodEnd := period.endDate }

/-- Copy the expense items of the plan of the open period to budgets. -/
def createBudgetsFromForecast (db : Planning) (org : ℕ) (today : Date) :
    Outcome (List BudgetResponse) :=
  withCurrentPeriod db org today fun db period => do
    let plan ← orRaise (planForPeriod? db.toBooks org period.id)
      (.validation ("No forecast plan exists for the current period. " ++
        "Create one on the Forecasts page first."))
    let db := ((planItems db.toBooks plan.id).filter (·.type = .expense)).foldl
      (insertFromItem org period) db
    pure (db, ((periodAt? db org period.startDate).map (budgetsOfPeriod db org)).getD [])

end Pfv
