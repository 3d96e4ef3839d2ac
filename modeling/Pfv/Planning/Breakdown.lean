import Pfv.Planning.Plans
import Pfv.Services.Projections

/-!
# The breakdown of a forecast

The totals of a forecast and its figures by category come from separate queries and separate loops.
Both select the same rows and templates and follow the same due dates, so the breakdown adds up to
the totals of the expenses, column by column.

## Main definitions

* `Forecast.AddsUp`: the breakdown of a forecast adds up to its totals.

## Main results

* `sum_byCategory`: the rows of the listed categories are all rows.
* `computeForecast_addsUp`: the columns of the breakdown add up, and no category is listed twice.
-/

namespace Pfv

/-- The columns of the breakdown of a forecast add up to its expenses, and no category is listed
twice. -/
structure Forecast.AddsUp (f : Forecast) : Prop where
  executed : (f.categories.map (·.executed)).sum = f.executedExpense
  pending : (f.categories.map (·.pending)).sum = f.pendingExpense
  recurring : (f.categories.map (·.recurring)).sum = f.recurringExpense
  forecast : (f.categories.map (·.forecast)).sum = f.forecastExpense
  nodup : (f.categories.map (·.categoryId)).Nodup

variable (db : Db) (org : ℕ) (today : Date) (p : BillingPeriod)

/-- The categories of a forecast, in ascending order. -/
def forecastCategoryIds : List ℕ :=
  (((byCategory (executedRows db org p .expense) ++
    byCategory (pendingPeriodRows db org p .expense) ++
    tally (((upcomingTemplates db org today p).filter (·.type = .expense)).map
      fun r => (r.categoryId, upcomingAmount p r))).map Prod.fst).eraseDups).insertionSort (· ≤ ·)

theorem nodup_forecastCategoryIds : (forecastCategoryIds db org today p).Nodup :=
  (List.perm_insertionSort _ _).nodup_iff.mpr (nodup_eraseDups _)

theorem mem_forecastCategoryIds {id : ℕ} :
    id ∈ forecastCategoryIds db org today p ↔
      id ∈ (executedRows db org p .expense).map (·.categoryId) ∨
        id ∈ (pendingPeriodRows db org p .expense).map (·.categoryId) ∨
        id ∈ ((upcomingTemplates db org today p).filter (·.type = .expense)).map
          (·.categoryId) := by
  rw [forecastCategoryIds, (List.perm_insertionSort _ _).mem_iff, List.mem_eraseDups,
    List.map_append, List.map_append, List.mem_append, List.mem_append, byCategory, byCategory,
    mem_keys_tally, mem_keys_tally, mem_keys_tally, List.map_map, List.map_map, List.map_map,
    or_assoc]
  rfl

theorem map_categoryId_forecastCategories :
    (forecastCategories db org today p).map (·.categoryId) =
      forecastCategoryIds db org today p := by
  rw [forecastCategories, List.map_map]
  exact List.map_id _

/-- The totals of categories that cover all rows are the amounts of all rows. -/
theorem sum_byCategory {rows : List Transaction} {ids : List ℕ} (hnodup : ids.Nodup)
    (hcover : ∀ t ∈ rows, t.categoryId ∈ ids) :
    (ids.map (total (byCategory rows))).sum = (rows.map (·.amount)).sum := by
  rw [byCategory, sum_total_tally _ hnodup, List.map_map]
  · rfl
  · intro e he
    obtain ⟨t, ht, rfl⟩ := List.mem_map.mp he
    exact hcover t ht

theorem computeForecast_addsUp : (computeForecast db org today p).AddsUp := by
  have hnodup := nodup_forecastCategoryIds db org today p
  -- A column of the breakdown is a figure of each listed category.
  have hcolumn : ∀ (f : ForecastCategory → ℤ) (g : ℕ → ℤ),
      (∀ c ∈ forecastCategories db org today p, f c = g c.categoryId) →
      ((forecastCategories db org today p).map f).sum =
        ((forecastCategoryIds db org today p).map g).sum := by
    intro f g hfg
    rw [← map_categoryId_forecastCategories, List.map_map]
    exact congrArg List.sum (List.map_congr_left hfg)
  have hexecuted := @sum_byCategory (executedRows db org p .expense) _ hnodup fun t ht =>
    (mem_forecastCategoryIds db org today p).mpr (.inl (List.mem_map_of_mem ht))
  have hpending := @sum_byCategory (pendingPeriodRows db org p .expense) _ hnodup fun t ht =>
    (mem_forecastCategoryIds db org today p).mpr (.inr (.inl (List.mem_map_of_mem ht)))
  have hrecurring : ((forecastCategoryIds db org today p).map (total (tally
      (((upcomingTemplates db org today p).filter (·.type = .expense)).map
        fun r => (r.categoryId, upcomingAmount p r))))).sum =
      upcomingTotal db org today p .expense := by
    rw [sum_total_tally _ hnodup, List.map_map]
    · rfl
    · intro e he
      obtain ⟨r, hr, rfl⟩ := List.mem_map.mp he
      exact (mem_forecastCategoryIds db org today p).mpr (.inr (.inr (List.mem_map_of_mem hr)))
  have hrow : ∀ c ∈ forecastCategories db org today p,
      c.executed = total (byCategory (executedRows db org p .expense)) c.categoryId ∧
      c.pending = total (byCategory (pendingPeriodRows db org p .expense)) c.categoryId ∧
      c.recurring = total
        (tally (((upcomingTemplates db org today p).filter (·.type = .expense)).map
          fun r => (r.categoryId, upcomingAmount p r))) c.categoryId ∧
      c.forecast = c.executed + c.pending + c.recurring := by
    intro c hc
    obtain ⟨id, -, rfl⟩ := List.mem_map.mp hc
    exact ⟨rfl, rfl, rfl, rfl⟩
  have hforecast : ∀ c ∈ forecastCategories db org today p, c.forecast =
      (fun c : ForecastCategory => c.executed + c.pending + c.recurring) c :=
    fun c hc => (hrow c hc).2.2.2
  constructor
  case executed => exact (hcolumn _ _ fun c hc => (hrow c hc).1).trans hexecuted
  case pending => exact (hcolumn _ _ fun c hc => (hrow c hc).2.1).trans hpending
  case recurring => exact (hcolumn _ _ fun c hc => (hrow c hc).2.2.1).trans hrecurring
  case forecast =>
    show ((forecastCategories db org today p).map (·.forecast)).sum = _
    rw [List.map_congr_left hforecast, List.sum_map_add, List.sum_map_add,
      hcolumn _ _ fun c hc => (hrow c hc).1, hcolumn _ _ fun c hc => (hrow c hc).2.1,
      hcolumn _ _ fun c hc => (hrow c hc).2.2.1, hexecuted, hpending, hrecurring]
    rfl
  case nodup =>
    show ((forecastCategories db org today p).map (·.categoryId)).Nodup
    rw [map_categoryId_forecastCategories]
    exact hnodup

end Pfv
