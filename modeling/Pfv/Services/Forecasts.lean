import Pfv.Base.Tally
import Pfv.Models.Books
import Pfv.Services.Balance

/-!
# Forecast plans

The editable plans of a billing period (`backend/app/services/forecast_plan_service.py`). The
billing period of an operation is the one `resolve_period` finds for the organisation; it is a
parameter here. Suggestions from history are averages that the source computes in floating point:
the function from a sum in cents and a number of months to the rounded average is a parameter as
well. Where the source leaves the order of the rows to the database, they are read in the order of
insertion. The response of an operation, a view of the plan with `computeActualsBatch`, is left out.

## Main definitions

* `getOrCreatePlanRow`, `requireDraft`, `validateMasterCategory`, `computeActualsBatch`.
* `populateFromSources`: items from recurring templates, history and the current period;
  `refreshFromSources`.
* `upsertItem`, `bulkUpsert`, `updateItem`, `deleteItem`, `activatePlan`, `revertToDraft`,
  `discardPlan`, `copyFromPeriod`.

## Main results

* `not_due_skipBefore`, `dueTotal_of_le`: the loops over the due dates of a template end.
-/

namespace Pfv

/-! ### Request schemas -/

structure ForecastPlanItemCreate where
  categoryId : ℕ
  type : EntryType
  plannedAmount : ℤ

structure ForecastPlanItemUpdate where
  plannedAmount : ℤ

structure BulkUpsertRequest where
  items : List ForecastPlanItemCreate

/-! ### Helpers -/

/-- The plan of an organisation for a period. -/
def planForPeriod? (books : Books) (org periodId : ℕ) : Option ForecastPlan :=
  books.forecastPlans.rows.find? fun p => p.orgId = org ∧ p.billingPeriodId = periodId

/-- Get or create a plan row. -/
def getOrCreatePlanRow (books : Books) (org periodId : ℕ) : Books × ForecastPlan :=
  match planForPeriod? books org periodId with
  | some plan => (books, plan)
  | none =>
      let plan : ForecastPlan := { orgId := org, billingPeriodId := periodId, status := .draft }
      ({ books with forecastPlans := books.forecastPlans.insert plan },
        { plan with id := books.forecastPlans.next })

/-- Raise when the plan is active. -/
def requireDraft (plan : ForecastPlan) : Except ServiceError Unit :=
  raiseIf (plan.status = .active)
    (.validation "Cannot modify an active plan. Revert to draft first.")

/-- The compatibility check of plan items, which have no transfers. -/
def itemTypeMatches : CategoryType → EntryType → Bool
  | .both, _ => true
  | .income, .income => true
  | .expense, .expense => true
  | _, _ => false

def itemTypeMismatch (catType : CategoryType) (type : EntryType) : String :=
  "Category type (" ++ catType.value ++ ") does not match forecast item type (" ++
    type.toTransactionType.value ++ ")"

/-- Validate that a category is a master of the organisation that admits the type of an item. -/
def validateMasterCategory (books : Books) (org categoryId : ℕ) (type : EntryType) :
    Except ServiceError Unit := do
  let cat ← orRaise (books.category? categoryId org) (.validation "Invalid category")
  raiseIf (cat.parentId ≠ none)
    (.validation "Forecast plan items must use master categories, not subcategories")
  raiseIf (itemTypeMatches cat.type type = false) (.validation (itemTypeMismatch cat.type type))

/-- The plan of an organisation with a given id. -/
def getPlan (books : Books) (org planId : ℕ) : Except ServiceError ForecastPlan :=
  orRaise ((books.forecastPlans.get? planId).filter (·.orgId = org)) (.notFound "Forecast plan")

/-- The items of a plan. -/
def planItems (books : Books) (planId : ℕ) : List ForecastPlanItem :=
  books.forecastPlanItems.rows.filter (·.planId = planId)

/-- What identifies an item within its plan. -/
def ForecastPlanItem.key (i : ForecastPlanItem) : ℕ × EntryType :=
  (i.categoryId, i.type)

/-- A new item of a plan. -/
def newItem (plan : ForecastPlan) (org : ℕ) (source : ItemSource) (key : ℕ × EntryType)
    (plannedAmount : ℤ) : ForecastPlanItem where
  planId := plan.id
  orgId := org
  categoryId := key.1
  type := key.2
  plannedAmount := plannedAmount
  source := source

/-- Store items. -/
def addItems (books : Books) (items : List ForecastPlanItem) : Books :=
  { books with forecastPlanItems := items.foldl Table.insert books.forecastPlanItems }

/-- The amounts of the items fit their column. -/
def Books.AmountsFit (books : Books) : Prop :=
  ∀ i ∈ books.forecastPlanItems.rows, InColumn i.plannedAmount

instance (books : Books) : Decidable books.AmountsFit :=
  inferInstanceAs (Decidable (∀ i ∈ books.forecastPlanItems.rows, InColumn i.plannedAmount))

/-- Flush the items: the database refuses an amount that does not fit its column, and a second item
with the plan, category and type of another. -/
def flushItems (books : Books) : Except ServiceError Books := do
  raiseIf (¬books.AmountsFit) (.database "planned_amount")
  raiseIf (¬(books.forecastPlanItems.rows.map fun i => (i.planId, i.key)).Nodup)
    (.database "uq_forecast_item_plan_cat_type")
  pure books

/-! ### Suggestions -/

/-- The last day of a period, by its ordinal number: a period without end date lasts one month. -/
def BillingPeriod.endOrdinal (p : BillingPeriod) : ℕ :=
  (p.endDate.map Date.toOrdinal).getD ((p.startDate.addMonths 1).toOrdinal - 1)

/-- A category or, for a subcategory, its master. -/
def catToMaster (books : Books) (org categoryId : ℕ) : ℕ :=
  ((books.category? categoryId org).bind (·.parentId)).getD categoryId

/-- The first due date that does not lie before a period, for at most `fuel` turns. -/
def skipBefore (start last : ℕ) (freq : Frequency) : ℕ → Date → Date
  | 0, d => d
  | fuel + 1, d =>
      if d.toOrdinal < start ∧ d.toOrdinal ≤ last then
        skipBefore start last freq fuel (advanceDate d freq)
      else d

/-- The total of a template over its due dates up to the end of a period, for at most `fuel`
turns. -/
def dueTotal (last : ℕ) (freq : Frequency) (amount : ℤ) : ℕ → Date → ℤ
  | 0, _ => 0
  | fuel + 1, d =>
      if d.toOrdinal ≤ last then amount + dueTotal last freq amount fuel (advanceDate d freq)
      else 0

/-- The total of a template within a period: every turn of the two loops takes at least a day.
`advance_date` always moves to a later date, so the guard against a date that stands still never
fires. -/
def recurringTotal (p : BillingPeriod) (r : RecurringTransaction) : ℤ :=
  let first := skipBefore p.startDate.toOrdinal p.endOrdinal r.frequency
    (p.startDate.toOrdinal - r.nextDueDate.toOrdinal) r.nextDueDate
  dueTotal p.endOrdinal r.frequency r.amount (p.endOrdinal + 1 - first.toOrdinal) first

/-- The totals of the active templates that fall due within a period, by master and type, without
those the plan has (`recurring_totals`). -/
def recurringTotals (books : Books) (org : ℕ) (p : BillingPeriod)
    (existing : List (ℕ × EntryType)) : List ((ℕ × EntryType) × ℤ) :=
  tally (((books.recurring.rows.filter fun r =>
    r.orgId = org ∧ r.isActive = true ∧ r.nextDueDate.toOrdinal ≤ p.endOrdinal ∧
      (catToMaster books org r.categoryId, r.type) ∉ existing ∧ 0 < recurringTotal p r).map
        fun r => ((catToMaster books org r.categoryId, r.type), recurringTotal p r)))

/-- The settled reportable rows of the three months before a period. -/
def historyRows (books : Books) (org : ℕ) (p : BillingPeriod) : List Transaction :=
  books.transactions.rows.filter fun t =>
    t.orgId = org ∧ t.status = .settled ∧ p.startDate.subMonths 3 ≤ t.date ∧ t.date < p.startDate ∧
      t.isReportable = true

/-- The reportable rows within a period, settled or pending. -/
def currentRows (books : Books) (org : ℕ) (p : BillingPeriod) : List Transaction :=
  books.transactions.rows.filter fun t =>
    t.orgId = org ∧ p.startDate ≤ t.date ∧ t.date.toOrdinal ≤ p.endOrdinal ∧ t.isReportable = true

/-- The totals of the current rows by category and type. -/
def currentTotals (books : Books) (org : ℕ) (p : BillingPeriod) : List ((ℕ × EntryType) × ℤ) :=
  tally ((currentRows books org p).filterMap fun t =>
    t.type.toEntryType?.map fun e => ((t.categoryId, e), t.amount))

/-- A month of the history, or the current period. -/
abbrev MonthLabel := Option (ℕ × ℕ)

/-- The amounts that drive suggestions: their master and type, their month, and the amount. -/
def monthlyAmounts (books : Books) (org : ℕ) (p : BillingPeriod) :
    List ((ℕ × EntryType) × MonthLabel × ℤ) :=
  ((historyRows books org p).filterMap fun t => t.type.toEntryType?.map fun e =>
    ((catToMaster books org t.categoryId, e), some (t.date.year, t.date.month), t.amount)) ++
  ((currentTotals books org p).filter (0 < ·.2)).map fun c =>
    ((catToMaster books org c.1.1, c.1.2), none, c.2)

/-- The totals of a master and type by month (`master_monthly`). -/
def masterMonthly (books : Books) (org : ℕ) (p : BillingPeriod) (key : ℕ × EntryType) :
    List (MonthLabel × ℤ) :=
  tally (((monthlyAmounts books org p).filter (·.1 = key)).map (·.2))

/-- The suggestion for a master and type: without activity in the current period it needs two
months. -/
def historySuggestion (average : ℤ → ℕ → ℤ) (books : Books) (org : ℕ) (p : BillingPeriod)
    (key : ℕ × EntryType) : Option ℤ :=
  let months := masterMonthly books org p key
  if none ∉ months.map Prod.fst ∧ months.length < 2 then none
  else some (average (months.map Prod.snd).sum months.length)

/-- The suggestions from the rows of the ledger, without those the plan has. -/
def historySuggestions (average : ℤ → ℕ → ℤ) (books : Books) (org : ℕ) (p : BillingPeriod)
    (existing : List (ℕ × EntryType)) : List ((ℕ × EntryType) × ℤ) :=
  ((((monthlyAmounts books org p).map Prod.fst).eraseDups.filter (· ∉ existing)).filterMap
    fun key => (historySuggestion average books org p key).map fun amount => (key, amount))

/-- The suggested items for a plan that has items under the existing keys. -/
def suggestions (average : ℤ → ℕ → ℤ) (books : Books) (org : ℕ) (p : BillingPeriod)
    (plan : ForecastPlan) (existing : List (ℕ × EntryType)) : List ForecastPlanItem :=
  let recurring := recurringTotals books org p existing
  recurring.map (fun e => newItem plan org .recurring e.1 e.2) ++
    (historySuggestions average books org p (existing ++ recurring.map Prod.fst)).map
      fun e => newItem plan org .history e.1 e.2

/-- Add the suggested items a plan does not have. -/
def addSuggestions (average : ℤ → ℕ → ℤ) (books : Books) (org : ℕ) (p : BillingPeriod)
    (plan : ForecastPlan) : Books :=
  addItems books
    (suggestions average books org p plan ((planItems books plan.id).map ForecastPlanItem.key))

/-! ### Actual amounts -/

/-- A row settled within a period; a period without an end lasts on. -/
def Transaction.SettledWithin (t : Transaction) (periodStart : Date) (periodEnd : Option Date) :
    Prop :=
  ∃ d ∈ t.settledDate, periodStart ≤ d ∧ ∀ e ∈ periodEnd, d ≤ e

instance (t : Transaction) (periodStart : Date) (periodEnd : Option Date) :
    Decidable (t.SettledWithin periodStart periodEnd) :=
  inferInstanceAs (Decidable (∃ d ∈ t.settledDate, periodStart ≤ d ∧ ∀ e ∈ periodEnd, d ≤ e))

/-- The master of a category among the masters of plan items (`cat_to_master`): a subcategory has
its parent, a master itself. -/
def masterAmong (books : Books) (org : ℕ) (masters : List ℕ) (categoryId : ℕ) : Option ℕ :=
  if categoryId ∈ masters then some categoryId
  else ((books.category? categoryId org).bind (·.parentId)).filter (· ∈ masters)

/-- The actual amounts of plan items by master and type, in one grouped query. -/
def computeActualsBatch (books : Books) (org : ℕ) (items : List ForecastPlanItem)
    (periodStart : Date) (periodEnd : Option Date) : List ((ℕ × EntryType) × ℤ) :=
  let masters := items.map (·.categoryId)
  tally (((books.transactions.rows.filter fun t =>
    t.orgId = org ∧ (masterAmong books org masters t.categoryId).isSome ∧ t.status = .settled ∧
      t.SettledWithin periodStart periodEnd ∧ t.isReportable = true).filterMap
        fun t => t.type.toEntryType?.map fun e =>
          (((masterAmong books org masters t.categoryId).getD t.categoryId, e), t.amount)))

/-- The actual amount of an item (`_build_response`). -/
def actualAmount (books : Books) (org : ℕ) (items : List ForecastPlanItem) (periodStart : Date)
    (periodEnd : Option Date) (item : ForecastPlanItem) : ℤ :=
  total (computeActualsBatch books org items periodStart periodEnd) item.key

/-! ### Operations -/

/-- Get the plan of a period, or create a draft. -/
def getOrCreatePlan (books : Books) (org : ℕ) (period : BillingPeriod) : Books :=
  (getOrCreatePlanRow books org period.id).1

/-- Auto-populate a plan from recurring templates, history and the current period. -/
def populateFromSources (average : ℤ → ℕ → ℤ) (books : Books) (org : ℕ) (period : BillingPeriod) :
    Except ServiceError Books := do
  let (books, plan) := getOrCreatePlanRow books org period.id
  requireDraft plan
  flushItems (addSuggestions average books org period plan)

/-- Delete the items of a plan that nobody touched. -/
def dropGenerated (books : Books) (planId : ℕ) : Books :=
  { books with
    forecastPlanItems := books.forecastPlanItems.filter fun i =>
      ¬(i.planId = planId ∧ i.source ≠ .manual) }

/-- Replace auto-generated plan items, preserving manual edits. -/
def refreshFromSources (average : ℤ → ℕ → ℤ) (books : Books) (org : ℕ) (period : BillingPeriod) :
    Except ServiceError Books := do
  let (books, plan) := getOrCreatePlanRow books org period.id
  requireDraft plan
  populateFromSources average (dropGenerated books plan.id) org period

/-- Add an item to a plan, or give the one with its category and type the amount, which makes it
manual. -/
def upsert (org : ℕ) (plan : ForecastPlan) (books : Books) (body : ForecastPlanItemCreate) :
    Books :=
  match (planItems books plan.id).find? fun i => i.key = (body.categoryId, body.type) with
  | some existing =>
      { books with
        forecastPlanItems := books.forecastPlanItems.put
          { existing with plannedAmount := body.plannedAmount, source := .manual } }
  | none =>
      addItems books [newItem plan org .manual (body.categoryId, body.type) body.plannedAmount]

/-- Add or update a single plan item. -/
def upsertItem (books : Books) (org planId : ℕ) (body : ForecastPlanItemCreate) :
    Except ServiceError Books := do
  let plan ← getPlan books org planId
  requireDraft plan
  validateMasterCategory books org body.categoryId body.type
  flushItems (upsert org plan books body)

/-- The requested categories that are missing or no masters. -/
def invalidCategoryIds (books : Books) (org : ℕ) (body : BulkUpsertRequest) : List ℕ :=
  ((body.items.map (·.categoryId)).eraseDups.filter fun id =>
    (books.category? id org).all (·.parentId.isSome)).insertionSort (· ≤ ·)

/-- The type check of one row of a bulk request. -/
def checkItemType (books : Books) (org : ℕ) (body : ForecastPlanItemCreate) :
    Except ServiceError Unit := do
  let cat ← orRaise (books.category? body.categoryId org) (.validation "Invalid category")
  raiseIf (itemTypeMatches cat.type body.type = false)
    (.validation (itemTypeMismatch cat.type body.type ++ " for category_id=" ++
      toString body.categoryId))

/-- Bulk add or update of plan items, all or none. -/
def bulkUpsert (books : Books) (org planId : ℕ) (body : BulkUpsertRequest) :
    Except ServiceError Books := do
  let plan ← getPlan books org planId
  requireDraft plan
  let invalid := invalidCategoryIds books org body
  raiseIf (invalid ≠ [])
    (.validation ("Invalid or non-master category IDs: [" ++
      String.intercalate ", " (invalid.map toString) ++ "]"))
  body.items.forM (checkItemType books org)
  flushItems (body.items.foldl (upsert org plan) books)

/-- The item of a plan with a given id. -/
def getItem (books : Books) (plan : ForecastPlan) (itemId : ℕ) :
    Except ServiceError ForecastPlanItem :=
  orRaise ((planItems books plan.id).find? (·.id = itemId)) (.notFound "Forecast plan item")

/-- Update the amount of a plan item, which makes it manual. -/
def updateItem (books : Books) (org planId itemId : ℕ) (body : ForecastPlanItemUpdate) :
    Except ServiceError Books := do
  let plan ← getPlan books org planId
  requireDraft plan
  let item ← getItem books plan itemId
  flushItems { books with
    forecastPlanItems := books.forecastPlanItems.put
      { item with plannedAmount := body.plannedAmount, source := .manual } }

def deleteItem (books : Books) (org planId itemId : ℕ) : Except ServiceError Books := do
  let plan ← getPlan books org planId
  requireDraft plan
  let item ← getItem books plan itemId
  pure { books with forecastPlanItems := books.forecastPlanItems.filter (·.id ≠ item.id) }

/-- Store the status of a plan. -/
def setPlanStatus (books : Books) (plan : ForecastPlan) (status : PlanStatus) : Books :=
  { books with forecastPlans := books.forecastPlans.put { plan with status := status } }

/-- Mark a plan as active. -/
def activatePlan (books : Books) (org planId : ℕ) : Except ServiceError Books := do
  let plan ← getPlan books org planId
  requireDraft plan
  raiseIf (planItems books plan.id = []) (.validation "Cannot activate an empty plan")
  pure (setPlanStatus books plan .active)

/-- Revert an active plan to a draft. -/
def revertToDraft (books : Books) (org planId : ℕ) : Except ServiceError Books := do
  let plan ← getPlan books org planId
  raiseIf (plan.status ≠ .active) (.validation "Plan is already a draft")
  pure (setPlanStatus books plan .draft)

/-- Remove all items from a draft plan. -/
def discardPlan (books : Books) (org planId : ℕ) : Except ServiceError Books := do
  let plan ← getPlan books org planId
  requireDraft plan
  pure (setPlanStatus
    { books with forecastPlanItems := books.forecastPlanItems.filter (·.planId ≠ plan.id) }
    plan .draft)

/-- Copy the items of the plan of one period to that of another. Copies are manual. -/
def copyFromPeriod (books : Books) (org : ℕ) (target source : BillingPeriod) :
    Except ServiceError Books := do
  let sourcePlan ← orRaise
    ((planForPeriod? books org source.id).filter fun p => planItems books p.id ≠ [])
    (.validation "Source period has no plan to copy")
  let sourceItems := planItems books sourcePlan.id
  let (books, plan) := getOrCreatePlanRow books org target.id
  requireDraft plan
  let existing := (planItems books plan.id).map ForecastPlanItem.key
  flushItems (addItems books
    ((sourceItems.filter (·.key ∉ existing)).map fun i =>
      newItem plan org .manual i.key i.plannedAmount))

/-! ### The loops end -/

/-- After enough turns the first loop stops at a date within or after the period. -/
theorem not_due_skipBefore {start last : ℕ} {freq : Frequency} {fuel : ℕ} {d : Date}
    (hfuel : start - d.toOrdinal ≤ fuel) :
    ¬((skipBefore start last freq fuel d).toOrdinal < start ∧
      (skipBefore start last freq fuel d).toOrdinal ≤ last) := by
  induction fuel generalizing d with
  | zero =>
    rintro ⟨hlt, -⟩
    rw [skipBefore] at hlt
    omega
  | succ fuel ih =>
    unfold skipBefore
    split_ifs with hdue
    · have hlater := Date.lt_iff.mp (Date.lt_advanceDate d freq)
      exact ih (by omega)
    · exact hdue

/-- Turns beyond the days up to the end of the period add nothing to the total. -/
theorem dueTotal_of_le {last : ℕ} {freq : Frequency} {amount : ℤ} {fuel fuel' : ℕ} {d : Date}
    (hfuel : last + 1 - d.toOrdinal ≤ fuel) (hle : fuel ≤ fuel') :
    dueTotal last freq amount fuel' d = dueTotal last freq amount fuel d := by
  induction fuel generalizing d fuel' with
  | zero =>
    cases fuel' with
    | zero => rfl
    | succ fuel' => exact if_neg (by omega)
  | succ fuel ih =>
    obtain ⟨n, rfl⟩ : ∃ n, fuel' = n + 1 := ⟨fuel' - 1, by omega⟩
    unfold dueTotal
    split_ifs with hdue
    · have hlater := Date.lt_iff.mp (Date.lt_advanceDate d freq)
      rw [ih (by omega) (by omega)]
    · rfl

end Pfv
