import Pfv.Models.Database

/-!
# Categories and what depends on them

The tables next to the ledger that refer to categories (`backend/app/models/category_rule.py`,
`budget.py`, `billing.py`, `forecast_plan.py`) and the recommended categories
(`backend/app/models/category.py`, `backend/app/services/org_bootstrap_service.py`). Amounts are in
cents. Columns no modelled function reads are left out: descriptions, time stamps.

## Main definitions

* `RuleSource`, `CategoryRule`, `Budget`, `BillingPeriod`, `ForecastPlan`, `ForecastPlanItem`.
* `Books`: the ledger with these tables.
* `systemCategories`, `standaloneSystemCategories`: the recommended categories.
-/

namespace Pfv

/-! ### Rows -/

inductive RuleSource
  | userEdit
  | userPick
  | dictionaryPromotion
  deriving DecidableEq

/-- The category an organisation chose for the descriptions with a normalized token. -/
structure CategoryRule where
  id : ℕ := 0
  orgId : ℕ
  categoryId : ℕ
  normalizedToken : String := ""
  rawDescriptionSeen : String := ""
  matchCount : ℕ := 1
  source : RuleSource := .userPick
  deriving DecidableEq

/-- The amount budgeted for a master category from the start of a period on; `periodEnd` is a copy
of the end the period had. -/
structure Budget where
  id : ℕ := 0
  orgId : ℕ
  categoryId : ℕ
  amount : ℤ
  periodStart : Date
  periodEnd : Option Date := none
  deriving DecidableEq

/-- A billing period; without an end date it is the open one. -/
structure BillingPeriod where
  id : ℕ := 0
  orgId : ℕ
  startDate : Date
  endDate : Option Date := none
  deriving DecidableEq

inductive PlanStatus
  | draft
  | active
  deriving DecidableEq

inductive ItemSource
  | manual
  | recurring
  | history
  deriving DecidableEq

structure ForecastPlan where
  id : ℕ := 0
  orgId : ℕ
  billingPeriodId : ℕ
  status : PlanStatus := .draft
  deriving DecidableEq

structure ForecastPlanItem where
  id : ℕ := 0
  planId : ℕ
  orgId : ℕ
  categoryId : ℕ
  type : EntryType
  plannedAmount : ℤ
  source : ItemSource := .manual
  deriving DecidableEq

instance : Row CategoryRule := ⟨CategoryRule.id, fun n r => { r with id := n }, fun _ _ => rfl⟩

instance : Row Budget := ⟨Budget.id, fun n b => { b with id := n }, fun _ _ => rfl⟩

instance : Row BillingPeriod := ⟨BillingPeriod.id, fun n p => { p with id := n }, fun _ _ => rfl⟩

instance : Row ForecastPlan := ⟨ForecastPlan.id, fun n p => { p with id := n }, fun _ _ => rfl⟩

instance : Row ForecastPlanItem :=
  ⟨ForecastPlanItem.id, fun n i => { i with id := n }, fun _ _ => rfl⟩

/-- The ledger with the other tables that refer to categories. -/
structure Books extends Db where
  categoryRules : Table CategoryRule
  budgets : Table Budget
  forecastPlans : Table ForecastPlan
  forecastPlanItems : Table ForecastPlanItem

/-! ### Recommended categories -/

/-- A recommended subcategory. -/
structure ChildDef where
  slug : String
  name : String
  deriving DecidableEq

/-- A recommended master category with its subcategories. -/
structure MasterDef where
  slug : String
  name : String
  type : CategoryType
  children : List ChildDef
  deriving DecidableEq

/-- The recommended masters (`SYSTEM_CATEGORIES`). -/
def systemCategories : List MasterDef :=
  [⟨"income", "Income", .income,
      [⟨"paycheck", "Paycheck/Salary"⟩, ⟨"side_hustles", "Side Hustles"⟩, ⟨"bonuses", "Bonuses"⟩,
        ⟨"interest_dividends", "Interest/Dividends"⟩, ⟨"tax_refunds", "Tax Refunds"⟩]⟩,
    ⟨"housing", "Housing", .expense,
      [⟨"rent_mortgage", "Rent/Mortgage"⟩, ⟨"property_taxes", "Property Taxes"⟩,
        ⟨"home_insurance", "Home Insurance"⟩, ⟨"hoa_fees", "HOA Fees"⟩,
        ⟨"home_repairs", "Repairs/Maintenance"⟩]⟩,
    ⟨"utilities", "Utilities", .expense,
      [⟨"electricity", "Electricity"⟩, ⟨"water", "Water"⟩, ⟨"gas_utility", "Gas"⟩,
        ⟨"internet", "Internet"⟩, ⟨"phone", "Phone"⟩, ⟨"trash", "Trash/Recycling"⟩]⟩,
    ⟨"food_dining", "Food & Dining", .expense,
      [⟨"groceries", "Groceries"⟩, ⟨"restaurants", "Restaurants"⟩,
        ⟨"coffee_shops", "Coffee Shops"⟩, ⟨"fast_food", "Fast Food/Takeout"⟩]⟩,
    ⟨"transportation", "Transportation", .expense,
      [⟨"fuel", "Fuel/Gas"⟩, ⟨"car_payments", "Car Payments"⟩,
        ⟨"auto_insurance", "Auto Insurance"⟩, ⟨"public_transit", "Public Transit"⟩,
        ⟨"car_maintenance", "Maintenance/Repairs"⟩, ⟨"parking_tolls", "Parking/Tolls"⟩]⟩,
    ⟨"health", "Health & Wellness", .expense,
      [⟨"health_insurance", "Health Insurance"⟩, ⟨"doctor_visits", "Doctor Visits/Copays"⟩,
        ⟨"pharmacy", "Pharmacy/Meds"⟩, ⟨"gym", "Gym Membership"⟩,
        ⟨"dental_vision", "Dental/Vision"⟩]⟩,
    ⟨"personal_care", "Personal Care", .expense,
      [⟨"haircuts", "Haircuts"⟩, ⟨"toiletries", "Toiletries"⟩, ⟨"clothing", "Clothing"⟩,
        ⟨"shoes", "Shoes"⟩, ⟨"laundry", "Laundry/Dry Cleaning"⟩]⟩,
    ⟨"lifestyle", "Lifestyle & Fun", .expense,
      [⟨"streaming", "Streaming Services"⟩, ⟨"entertainment", "Movies/Concerts"⟩,
        ⟨"hobbies", "Hobbies"⟩, ⟨"travel", "Travel/Vacation"⟩, ⟨"books_media", "Books/Media"⟩]⟩,
    ⟨"financial_goals", "Financial Goals", .expense,
      [⟨"emergency_fund", "Emergency Fund"⟩, ⟨"retirement", "Retirement (401k/IRA)"⟩,
        ⟨"general_savings", "General Savings"⟩, ⟨"investments", "Brokerage Investments"⟩]⟩,
    ⟨"debt", "Debt Repayment", .expense,
      [⟨"credit_card_debt", "Credit Cards"⟩, ⟨"student_loans", "Student Loans"⟩,
        ⟨"personal_loans", "Personal Loans"⟩]⟩,
    ⟨"giving", "Giving & Gifts", .expense,
      [⟨"donations", "Charitable Donations"⟩, ⟨"gifts", "Birthday/Holiday Gifts"⟩]⟩,
    ⟨"miscellaneous", "Miscellaneous", .expense,
      [⟨"bank_fees", "Bank Fees"⟩, ⟨"taxes_other", "Taxes (Non-Property)"⟩,
        ⟨"uncategorized", "Uncategorized/Unexpected"⟩]⟩]

/-- The recommended categories without subcategories (`STANDALONE_SYSTEM_CATEGORIES`). -/
def standaloneSystemCategories : List MasterDef :=
  [⟨"transfer", "Transfer", .both, []⟩,
    ⟨"credit_card_payment", "Credit Card Payment", .both, []⟩]

end Pfv
