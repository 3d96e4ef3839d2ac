import Pfv.Services.Budgets

/-!
# Plan actuals and budget spending

The actual amounts of all items of a plan come from one grouped query that is rolled up to masters;
the amount spent against a budget is one sum. On items that sit on master categories both count the
same rows.

## Main results

* `actualAmount_eq_computeSpent`: the actual amount of an expense item is what was spent on its
  category.
-/

namespace Pfv

variable {books : Books} {org : ℕ} {items : List ForecastPlanItem} {item : ForecastPlanItem}

/-- The category of an item is a master. -/
def ForecastPlanItem.SitsOnMaster (books : Books) (i : ForecastPlanItem) : Prop :=
  ∀ c ∈ books.categories.rows, c.id = i.categoryId → c.parentId = none

instance (books : Books) (i : ForecastPlanItem) : Decidable (i.SitsOnMaster books) :=
  inferInstanceAs (Decidable (∀ c ∈ books.categories.rows, _ → _))

/-- Among the masters of items, a category is counted under a master exactly when it is the master
or one of its subcategories. -/
theorem masterAmong_eq_some_iff (hmasters : ∀ i ∈ items, i.SitsOnMaster books)
    (hitem : item ∈ items) (k : ℕ) :
    masterAmong books org (items.map (·.categoryId)) k = some item.categoryId ↔
      k = item.categoryId ∨ ∃ c ∈ books.categories.rows, c.id = k ∧
        c.parentId = some item.categoryId ∧ c.orgId = org := by
  have hmem : item.categoryId ∈ items.map (·.categoryId) := List.mem_map_of_mem hitem
  have hget : ∀ c, books.category? k org = some c ↔
      c ∈ books.categories.rows ∧ c.id = k ∧ c.orgId = org := by
    intro c
    simp only [Db.category?, Option.filter_eq_some_iff, decide_eq_true_eq]
    constructor
    · rintro ⟨hc, horg⟩
      exact ⟨Table.get?_mem hc, Table.get?_id hc, horg⟩
    · rintro ⟨hc, rfl, horg⟩
      exact ⟨Table.get?_of_mem hc, horg⟩
  unfold masterAmong
  split_ifs with hk
  · -- A master is counted under itself, and no master is a subcategory.
    rw [Option.some_inj]
    refine ⟨Or.inl, ?_⟩
    rintro (h | ⟨c, hc, hid, hparent, -⟩)
    · exact h
    · obtain ⟨i, hi, hik⟩ := List.mem_map.mp hk
      have hnone := hmasters i hi c hc (hid.trans hik.symm)
      simp [hnone] at hparent
  · simp only [Option.filter_eq_some_iff, Option.bind_eq_some_iff, decide_eq_true_eq, hget]
    constructor
    · rintro ⟨⟨c, ⟨hc, hid, horg⟩, hparent⟩, -⟩
      exact .inr ⟨c, hc, hid, hparent, horg⟩
    · rintro (h | ⟨c, hc, hid, hparent, horg⟩)
      · exact absurd (h ▸ hmem) hk
      · exact ⟨⟨c, ⟨hc, hid, horg⟩, hparent⟩, hmem⟩

/-- The actual amount of an expense item is what was spent on its category in the period of its
plan. -/
theorem actualAmount_eq_computeSpent (hmasters : ∀ i ∈ items, i.SitsOnMaster books)
    (hitem : item ∈ items) (hexpense : item.type = .expense) (periodStart : Date)
    (periodEnd : Option Date) :
    actualAmount books org items periodStart periodEnd item =
      computeSpent books org item.categoryId periodStart periodEnd := by
  rw [actualAmount, computeActualsBatch, total_tally, computeSpent]
  congr 1
  rw [List.filter_filterMap, List.map_filterMap, List.filterMap_filter]
  conv_rhs => rw [← List.filterMap_eq_map, List.filterMap_filter]
  refine List.filterMap_congr fun t _ => ?_
  have hmaster := @masterAmong_eq_some_iff books org items item hmasters hitem t.categoryId
  have hkey : item.key = (item.categoryId, .expense) := by rw [ForecastPlanItem.key, hexpense]
  -- Both sides count the amount of an expense under this master, and nothing else.
  by_cases hspends : t.SpendsOn books org item.categoryId ∧ t.SettledWithin periodStart periodEnd
  · obtain ⟨⟨horg, hcat, htype, hstatus, hrep⟩, hwithin⟩ := hspends
    have hsome := hmaster.mpr hcat
    simp [horg, htype, hstatus, hrep, hwithin, hsome, hkey, TransactionType.toEntryType?,
      Transaction.SpendsOn, hcat]
  · refine Eq.trans ?_ (if_neg fun h => hspends (of_decide_eq_true h)).symm
    split_ifs with hcounted
    · obtain ⟨horg, hsome, hstatus, hwithin, hrep⟩ := of_decide_eq_true hcounted
      obtain ⟨m, hm⟩ := Option.isSome_iff_exists.mp hsome
      cases htype : t.type with
      | income => simp [TransactionType.toEntryType?, hkey]
      | transfer => simp [TransactionType.toEntryType?]
      | expense =>
        have hne : m ≠ item.categoryId := fun heq =>
          hspends ⟨⟨horg, hmaster.mp (hm.trans (congrArg some heq)), htype, hstatus, hrep⟩, hwithin⟩
        simp [TransactionType.toEntryType?, hkey, hm, hne]
    · rfl

def sampleRentDay : Date := .of 2024 1 5

/-- The books of an organisation with one expense on a subcategory and a plan for its master. -/
def sampleSpending : Books where
  accountTypes := .empty
  accounts := .empty
  categories := (Table.empty.insert { orgId := 1, name := "Home" }).insert
    { orgId := 1, parentId := some 1, name := "Rent" }
  transactions := Table.empty.insert
    { orgId := 1, accountId := 1, categoryId := 2, description := "Rent", amount := 1000
      type := .expense, date := sampleRentDay, settledDate := some sampleRentDay }
  recurring := .empty
  importBatches := .empty
  categoryRules := .empty
  budgets := .empty
  forecastPlans := Table.empty.insert { orgId := 1, billingPeriodId := 1 }
  forecastPlanItems := Table.empty.insert
    { planId := 1, orgId := 1, categoryId := 1, type := .expense, plannedAmount := 1200 }

/-- The expense on the subcategory counts for the item of its master. -/
theorem actualAmount_of_sampleSpending :
    actualAmount sampleSpending 1 sampleSpending.forecastPlanItems.rows sampleRentDay none
        { id := 1, planId := 1, orgId := 1, categoryId := 1, type := .expense,
          plannedAmount := 1200 } =
      computeSpent sampleSpending 1 1 sampleRentDay none :=
  actualAmount_eq_computeSpent (by decide) (.head _) rfl sampleRentDay none

end Pfv
