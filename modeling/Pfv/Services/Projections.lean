import Pfv.Services.Forecasts

/-!
# Projections

The forecast of a billing period from executed, pending and recurring amounts
(`backend/app/services/forecast_service.py`), and the balances the accounts are expected to have at
its end (`backend/app/services/account_balance_forecast_service.py`). The billing period is the one
that was found for the request; it is a parameter here. The order in which the view lists the
accounts is left out.

## Main definitions

* `computeForecast`, with `executedTotal`, `pendingTotal` and `upcomingTotal`.
* `computeAccountBalanceForecast`, with `pendingByAccount` and `currencyTotals`.
-/

namespace Pfv

/-! ### Forecast of a period -/

/-- A category in a forecast. -/
structure ForecastCategory where
  categoryId : ℕ
  categoryName : String
  parentId : Option ℕ
  executed : ℤ
  pending : ℤ
  recurring : ℤ
  forecast : ℤ
  deriving DecidableEq

/-- The forecast of a period, whose end is given by its ordinal number. -/
structure Forecast where
  periodStart : Date
  periodEnd : ℕ
  executedIncome : ℤ
  executedExpense : ℤ
  executedNet : ℤ
  pendingIncome : ℤ
  pendingExpense : ℤ
  recurringIncome : ℤ
  recurringExpense : ℤ
  forecastIncome : ℤ
  forecastExpense : ℤ
  forecastNet : ℤ
  categories : List ForecastCategory
  deriving DecidableEq

/-- The reportable rows of a type that settled within a period. -/
def executedRows (db : Db) (org : ℕ) (p : BillingPeriod) (type : EntryType) : List Transaction :=
  db.transactions.rows.filter fun t =>
    t.orgId = org ∧ t.type = type.toTransactionType ∧ t.status = .settled ∧
      (∃ d ∈ t.settledDate, p.startDate ≤ d ∧ d.toOrdinal ≤ p.endOrdinal) ∧ t.isReportable = true

/-- The reportable pending rows of a type dated within a period. -/
def pendingPeriodRows (db : Db) (org : ℕ) (p : BillingPeriod) (type : EntryType) :
    List Transaction :=
  db.transactions.rows.filter fun t =>
    t.orgId = org ∧ t.type = type.toTransactionType ∧ t.status = .pending ∧
      p.startDate ≤ t.date ∧ t.date.toOrdinal ≤ p.endOrdinal ∧ t.isReportable = true

/-- The active templates that fall due after today and before the end of a period. -/
def upcomingTemplates (db : Db) (org : ℕ) (today : Date) (p : BillingPeriod) :
    List RecurringTransaction :=
  db.recurring.rows.filter fun r =>
    r.orgId = org ∧ r.isActive = true ∧ r.nextDueDate.toOrdinal ≤ p.endOrdinal ∧
      today < r.nextDueDate

/-- What a template adds up to until the end of a period. -/
def upcomingAmount (p : BillingPeriod) (r : RecurringTransaction) : ℤ :=
  dueTotal p.endOrdinal r.frequency r.amount (p.endOrdinal + 1 - r.nextDueDate.toOrdinal)
    r.nextDueDate

/-- What the upcoming templates of a type add up to. -/
def upcomingTotal (db : Db) (org : ℕ) (today : Date) (p : BillingPeriod) (type : EntryType) : ℤ :=
  (((upcomingTemplates db org today p).filter (·.type = type)).map (upcomingAmount p)).sum

/-- Amounts of rows by category. -/
def byCategory (rows : List Transaction) : List (ℕ × ℤ) :=
  tally (rows.map fun t => (t.categoryId, t.amount))

/-- The expenses of a period by category: executed, pending and recurring. -/
def forecastCategories (db : Db) (org : ℕ) (today : Date) (p : BillingPeriod) :
    List ForecastCategory :=
  let executed := byCategory (executedRows db org p .expense)
  let pending := byCategory (pendingPeriodRows db org p .expense)
  let recurring := tally (((upcomingTemplates db org today p).filter (·.type = .expense)).map
    fun r => (r.categoryId, upcomingAmount p r))
  (((executed ++ pending ++ recurring).map Prod.fst).eraseDups.insertionSort (· ≤ ·)).map fun id =>
    { categoryId := id
      categoryName := ((db.category? id org).map (·.name)).getD "Unknown"
      parentId := (db.category? id org).bind (·.parentId)
      executed := total executed id
      pending := total pending id
      recurring := total recurring id
      forecast := total executed id + total pending id + total recurring id }

/-- Compute the full forecast for a billing period. -/
def computeForecast (db : Db) (org : ℕ) (today : Date) (p : BillingPeriod) : Forecast :=
  let executed type := ((executedRows db org p type).map (·.amount)).sum
  let pending type := ((pendingPeriodRows db org p type).map (·.amount)).sum
  let forecast type := executed type + pending type + upcomingTotal db org today p type
  { periodStart := p.startDate
    periodEnd := p.endOrdinal
    executedIncome := executed .income
    executedExpense := executed .expense
    executedNet := executed .income - executed .expense
    pendingIncome := pending .income
    pendingExpense := pending .expense
    recurringIncome := upcomingTotal db org today p .income
    recurringExpense := upcomingTotal db org today p .expense
    forecastIncome := forecast .income
    forecastExpense := forecast .expense
    forecastNet := forecast .income - forecast .expense
    categories := forecastCategories db org today p }

/-! ### Expected balances -/

/-- The expected balance of an account at the end of a period. -/
structure AccountForecast where
  accountId : ℕ
  accountName : String
  currency : String
  accountTypeSlug : Option String
  balance : ℤ
  pendingDelta : ℤ
  expectedMonthEndBalance : ℤ
  deriving DecidableEq

/-- The sums over the accounts of one currency. -/
structure CurrencyTotal where
  currency : String
  balance : ℤ
  pendingDelta : ℤ
  expectedMonthEndBalance : ℤ
  deriving DecidableEq

structure BalanceForecast where
  periodStart : Date
  periodEnd : ℕ
  totals : List CurrencyTotal
  accounts : List AccountForecast
  deriving DecidableEq

/-- The active accounts of an organisation, joined with their types. -/
def activeAccounts (db : Db) (org : ℕ) : List (Account × Option String) :=
  (db.accounts.rows.filter fun a => a.orgId = org ∧ a.isActive = true).filterMap fun a =>
    (db.accountTypes.get? a.accountTypeId).map fun ty => (a, ty.slug)

/-- A pending row that is no manual adjustment and counts towards a period. -/
def Transaction.PendingIn (t : Transaction) (org : ℕ) (p : BillingPeriod) : Prop :=
  t.orgId = org ∧ t.status = .pending ∧ t.isManualAdjustment = false ∧
    p.startDate ≤ t.effectivePeriodDate ∧ t.effectivePeriodDate.toOrdinal ≤ p.endOrdinal

instance (t : Transaction) (org : ℕ) (p : BillingPeriod) : Decidable (t.PendingIn org p) :=
  inferInstanceAs (Decidable (_ ∧ _ ∧ _ ∧ _ ∧ _))

/-- The pending amounts of a period by account and type, in one grouped query. -/
def pendingGroups (db : Db) (org : ℕ) (p : BillingPeriod) :
    List ((ℕ × TransactionType) × ℤ) :=
  tally ((db.transactions.rows.filter (·.PendingIn org p)).map fun t =>
    ((t.accountId, t.type), t.amount))

/-- The pending amounts of a period by account: expenses are negative. -/
def pendingByAccount (db : Db) (org : ℕ) (p : BillingPeriod) : List (ℕ × ℤ) :=
  tally ((pendingGroups db org p).map fun g =>
    (g.1.1, if g.1.2 = .expense then -g.2 else g.2))

/-- The expected balance of one account. -/
def forecastAccount (db : Db) (org : ℕ) (p : BillingPeriod) (a : Account × Option String) :
    AccountForecast :=
  let delta := total (pendingByAccount db org p) a.1.id
  { accountId := a.1.id
    accountName := a.1.name
    currency := a.1.currency
    accountTypeSlug := a.2
    balance := a.1.balance
    pendingDelta := delta
    expectedMonthEndBalance := a.1.balance + delta }

/-- The totals by currency. -/
def currencyTotals (accounts : List AccountForecast) : List CurrencyTotal :=
  let buckets : List (String × (ℤ × ℤ)) :=
    tally (accounts.map fun a => (a.currency, (a.balance, a.pendingDelta)))
  (buckets.insertionSort fun b c => b.1 ≤ c.1).map fun b =>
    { currency := b.1
      balance := b.2.1
      pendingDelta := b.2.2
      expectedMonthEndBalance := b.2.1 + b.2.2 }

/-- Compute the expected balance of every active account at the end of a billing period. -/
def computeAccountBalanceForecast (db : Db) (org : ℕ) (p : BillingPeriod) : BalanceForecast :=
  let accounts := (activeAccounts db org).map (forecastAccount db org p)
  { periodStart := p.startDate
    periodEnd := p.endOrdinal
    totals := currencyTotals accounts
    accounts := accounts }

end Pfv
