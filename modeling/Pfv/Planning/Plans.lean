import Pfv.Base.Run
import Pfv.Services.Categories
import Pfv.Services.Forecasts

/-!
# Forecast plans are protected

The requests on forecast plans share one table of items. Generation adds items only under keys a
plan does not have, an active plan refuses every request but its revert, and only a user writes to
items a user has touched.

## Main definitions

* `PlanRequest`, `PlanRequest.serve`: the requests on plans.
* `EditsPlan`: one plan is changed and no other.

## Main results

* `PlanRequest.serve_edits`: a successful request changes nothing, or a draft, or reverts a plan.
* `plans_protected`: what holds after and along every run of requests.
-/

namespace Pfv

/-! ### Unique items -/

/-- What the items of all plans are unique in. -/
def ForecastPlanItem.planKey (i : ForecastPlanItem) : ℕ × ℕ × EntryType :=
  (i.planId, i.key)

/-- An item without its primary key. -/
def ForecastPlanItem.content (i : ForecastPlanItem) : ForecastPlanItem :=
  { i with id := 0 }

variable {average : ℤ → ℕ → ℤ} {books base books' : Books} {plan : ForecastPlan}
  {org planId periodId : ℕ} {period : BillingPeriod}

theorem uniqueItems_iff :
    books.UniqueItems ↔ (books.forecastPlanItems.rows.map ForecastPlanItem.planKey).Nodup :=
  Iff.rfl

theorem flushItems_eq_ok :
    flushItems books = .ok books' ↔ books.AmountsFit ∧ books.UniqueItems ∧ books = books' := by
  unfold flushItems
  rw [raiseIf_bind_eq_ok, raiseIf_bind_eq_ok, pure_eq_ok, not_not, not_not]
  rfl

/-- Whether the amounts fit does not depend on the primary keys. -/
theorem Books.AmountsFit.of_content (h : books.AmountsFit)
    (hcontent : books'.forecastPlanItems.rows.map ForecastPlanItem.content =
      books.forecastPlanItems.rows.map ForecastPlanItem.content) : books'.AmountsFit := by
  intro i hi
  obtain ⟨j, hj, hji⟩ := List.mem_map.mp (hcontent ▸ List.mem_map_of_mem hi)
  have hamount : j.content.plannedAmount = i.content.plannedAmount := congrArg _ hji
  have hfits : InColumn j.content.plannedAmount := h j hj
  rwa [hamount] at hfits

theorem mem_planItems {i : ForecastPlanItem} :
    i ∈ planItems books planId ↔ i ∈ books.forecastPlanItems.rows ∧ i.planId = planId := by
  rw [planItems, List.mem_filter, decide_eq_true_eq]

/-- Adding items appends them. -/
theorem rows_addItems (books : Books) (items : List ForecastPlanItem) :
    ∃ new, (addItems books items).forecastPlanItems.rows = books.forecastPlanItems.rows ++ new ∧
      new.map ForecastPlanItem.content = items.map ForecastPlanItem.content :=
  Table.rows_foldl_insert ForecastPlanItem.content (fun _ _ => rfl) items _

/-- Added items leave amounts that fit when the amounts before fit and their own do. -/
theorem amountsFit_addItems {items : List ForecastPlanItem} :
    (addItems books items).AmountsFit ↔
      books.AmountsFit ∧ ∀ i ∈ items, InColumn i.plannedAmount := by
  obtain ⟨new, hrows, hcontent⟩ := rows_addItems books items
  have hamounts : new.map ForecastPlanItem.plannedAmount =
      items.map ForecastPlanItem.plannedAmount := by
    simpa [ForecastPlanItem.content, Function.comp_def] using
      congrArg (List.map ForecastPlanItem.plannedAmount) hcontent
  have hnew : (∀ i ∈ new, InColumn i.plannedAmount) ↔ ∀ i ∈ items, InColumn i.plannedAmount := by
    rw [← List.forall_mem_map (P := InColumn), hamounts, List.forall_mem_map]
  rw [Books.AmountsFit, hrows, List.forall_mem_append, hnew]
  rfl

theorem map_planKey_of_content {items new : List ForecastPlanItem}
    (h : new.map ForecastPlanItem.content = items.map ForecastPlanItem.content) :
    new.map ForecastPlanItem.planKey = items.map ForecastPlanItem.planKey := by
  have hfun : (ForecastPlanItem.planKey : ForecastPlanItem → _) =
      ForecastPlanItem.planKey ∘ ForecastPlanItem.content := rfl
  rw [hfun, ← List.map_map, h, List.map_map]

theorem planId_of_content {items new : List ForecastPlanItem}
    (h : new.map ForecastPlanItem.content = items.map ForecastPlanItem.content)
    (hplan : ∀ i ∈ items, i.planId = planId) : ∀ i ∈ new, i.planId = planId := by
  intro i hi
  obtain ⟨j, hj, hji⟩ := List.mem_map.mp (h ▸ List.mem_map_of_mem hi)
  rw [← hplan j hj]
  exact (congrArg ForecastPlanItem.planId hji).symm

/-- Adding items under new keys keeps the items of every plan unique. -/
theorem unique_addItems (h : books.UniqueItems) {items : List ForecastPlanItem}
    (hplan : ∀ i ∈ items, i.planId = planId) (hnodup : (items.map ForecastPlanItem.key).Nodup)
    (hnew : ∀ i ∈ items, i.key ∉ (planItems books planId).map ForecastPlanItem.key) :
    (addItems books items).UniqueItems := by
  obtain ⟨new, hrows, hcontent⟩ := rows_addItems books items
  have hkeys : items.map ForecastPlanItem.planKey =
      (items.map ForecastPlanItem.key).map fun k => (planId, k) := by
    rw [List.map_map]
    exact List.map_congr_left fun i hi => by rw [ForecastPlanItem.planKey, hplan i hi]; rfl
  rw [uniqueItems_iff, hrows, List.map_append, map_planKey_of_content hcontent]
  refine List.nodup_append.mpr ⟨h, ?_, ?_⟩
  · rw [hkeys]
    exact hnodup.map fun k k' hk => (Prod.mk.inj hk).2
  · -- An item under the plan and key of a new one is an item of the plan.
    rintro _ hold _ hadd rfl
    obtain ⟨j, hj, hjk⟩ := List.mem_map.mp hold
    obtain ⟨i, hi, hik⟩ := List.mem_map.mp hadd
    obtain ⟨hid, hkey⟩ := Prod.mk.inj (hjk.trans hik.symm)
    exact hnew i hi (List.mem_map.mpr ⟨j, mem_planItems.mpr ⟨hj, hid.trans (hplan i hi)⟩, hkey⟩)

/-! ### Suggestions -/

theorem nodup_eraseDups {α : Type*} [BEq α] [LawfulBEq α] : ∀ l : List α, l.eraseDups.Nodup
  | [] => List.nodup_nil
  | a :: l => by
      rw [List.eraseDups_cons]
      refine List.nodup_cons.mpr ⟨fun ha => ?_, nodup_eraseDups (l.filter fun b => !b == a)⟩
      simpa using (List.mem_filter.mp (List.mem_eraseDups.mp ha)).2
termination_by l => l.length
decreasing_by exact Nat.lt_succ_of_le (List.length_filter_le _ _)

variable {existing existing' : List (ℕ × EntryType)} {key : ℕ × EntryType}

theorem mem_recurringTotals_keys :
    key ∈ (recurringTotals books org period existing).map Prod.fst ↔
      key ∉ existing ∧ ∃ r ∈ books.recurring.rows, r.orgId = org ∧ r.isActive = true ∧
        r.nextDueDate.toOrdinal ≤ period.endOrdinal ∧ 0 < recurringTotal period r ∧
        (catToMaster books org r.categoryId, r.type) = key := by
  rw [recurringTotals, mem_keys_tally, List.map_map, List.mem_map]
  simp only [List.mem_filter, decide_eq_true_eq, Function.comp_apply]
  constructor
  · rintro ⟨r, ⟨hr, horg, hactive, hdue, hnew, hpos⟩, rfl⟩
    exact ⟨hnew, r, hr, horg, hactive, hdue, hpos, rfl⟩
  · rintro ⟨hnew, r, hr, horg, hactive, hdue, hpos, rfl⟩
    exact ⟨r, ⟨hr, horg, hactive, hdue, hnew, hpos⟩, rfl⟩

theorem mem_historySuggestions_keys :
    key ∈ (historySuggestions average books org period existing).map Prod.fst ↔
      key ∉ existing ∧ key ∈ (monthlyAmounts books org period).map Prod.fst ∧
        (historySuggestion average books org period key).isSome = true := by
  simp only [historySuggestions, List.mem_map, List.mem_filterMap, List.mem_filter,
    List.mem_eraseDups, decide_eq_true_eq, Option.map_eq_some_iff]
  constructor
  · rintro ⟨_, ⟨k, ⟨hmem, hnew⟩, amount, hamount, rfl⟩, rfl⟩
    exact ⟨hnew, hmem, Option.isSome_iff_exists.mpr ⟨amount, hamount⟩⟩
  · rintro ⟨hnew, hmem, hsome⟩
    obtain ⟨amount, hamount⟩ := Option.isSome_iff_exists.mp hsome
    exact ⟨(key, amount), ⟨key, ⟨hmem, hnew⟩, amount, hamount, rfl⟩, rfl⟩

theorem nodup_historySuggestions_keys :
    ((historySuggestions average books org period existing).map Prod.fst).Nodup := by
  rw [historySuggestions, List.map_filterMap]
  refine ((nodup_eraseDups _).filter _).filterMap fun k k' _ hk hk' => ?_
  simp only [Option.map_map, Option.mem_def, Option.map_eq_some_iff] at hk hk'
  obtain ⟨_, -, rfl⟩ := hk
  obtain ⟨_, -, h⟩ := hk'
  exact h.symm

/-- The keys of the suggested items. -/
theorem map_key_suggestions :
    (suggestions average books org period plan existing).map ForecastPlanItem.key =
      (recurringTotals books org period existing).map Prod.fst ++
        (historySuggestions average books org period
          (existing ++ (recurringTotals books org period existing).map Prod.fst)).map Prod.fst := by
  rw [suggestions, List.map_append, List.map_map, List.map_map]
  rfl

theorem nodup_key_suggestions :
    ((suggestions average books org period plan existing).map ForecastPlanItem.key).Nodup := by
  rw [map_key_suggestions]
  refine List.nodup_append.mpr ⟨nodup_keys_tally _, nodup_historySuggestions_keys, ?_⟩
  rintro k hk _ hk' rfl
  exact (mem_historySuggestions_keys.mp hk').1 (List.mem_append_right _ hk)

theorem key_suggestions_notMem {i : ForecastPlanItem}
    (hi : i ∈ suggestions average books org period plan existing) : i.key ∉ existing := by
  have hkey :
      i.key ∈ (suggestions average books org period plan existing).map ForecastPlanItem.key :=
    List.mem_map_of_mem hi
  rw [map_key_suggestions, List.mem_append] at hkey
  rcases hkey with h | h
  · exact (mem_recurringTotals_keys.mp h).1
  · exact fun hmem => (mem_historySuggestions_keys.mp h).1 (List.mem_append_left _ hmem)

theorem of_mem_suggestions {i : ForecastPlanItem}
    (hi : i ∈ suggestions average books org period plan existing) :
    i.planId = plan.id ∧ i.source ≠ .manual := by
  rw [suggestions, List.mem_append] at hi
  rcases hi with hi | hi <;> obtain ⟨e, -, rfl⟩ := List.mem_map.mp hi <;>
    exact ⟨rfl, by simp [newItem]⟩

/-- A plan that has items under its suggestions gets no more of them. -/
theorem suggestions_eq_nil (hsub : existing ⊆ existing')
    (hhas : ∀ i ∈ suggestions average books org period plan existing, i.key ∈ existing') :
    suggestions average books org period plan existing' = [] := by
  have hkeys : ∀ k ∈ (suggestions average books org period plan existing).map ForecastPlanItem.key,
      k ∈ existing' := fun k hk => by
    obtain ⟨i, hi, rfl⟩ := List.mem_map.mp hk
    exact hhas i hi
  rw [map_key_suggestions] at hkeys
  rw [← List.map_eq_nil_iff (f := ForecastPlanItem.key), map_key_suggestions,
    List.eq_nil_iff_forall_not_mem]
  have hrecurring : ∀ k, k ∉ (recurringTotals books org period existing').map Prod.fst := by
    intro k hk
    obtain ⟨hnew, hdue⟩ := mem_recurringTotals_keys.mp hk
    exact hnew (hkeys k (List.mem_append_left _
      (mem_recurringTotals_keys.mpr ⟨fun h => hnew (hsub h), hdue⟩)))
  intro k hk
  rcases List.mem_append.mp hk with hk | hk
  · exact hrecurring k hk
  · obtain ⟨hnew, hseen⟩ := mem_historySuggestions_keys.mp hk
    have hnew' : k ∉ existing' := fun h => hnew (List.mem_append_left _ h)
    refine hnew' (hkeys k (List.mem_append_right _ (mem_historySuggestions_keys.mpr ⟨?_, hseen⟩)))
    rw [List.mem_append, not_or]
    exact ⟨fun h => hnew' (hsub h), fun h => hnew' (hkeys k (List.mem_append_left _ h))⟩

/-- The suggestions are new to the plan. -/
theorem addSuggestions_unique (h : books.UniqueItems) :
    (addSuggestions average books org period plan).UniqueItems :=
  unique_addItems h (fun _ hi => (of_mem_suggestions hi).1) nodup_key_suggestions
    fun _ hi => key_suggestions_notMem hi

/-! ### Plan rows -/

/-- The plan of a period is in the books, which otherwise are as they were. -/
structure GotPlan (books base : Books) (plan : ForecastPlan) : Prop where
  stored : base.forecastPlans.get? plan.id = some plan
  items : base.forecastPlanItems = books.forecastPlanItems
  others : ∀ id ≠ plan.id, base.forecastPlans.get? id = books.forecastPlans.get? id
  before : books.forecastPlans.get? plan.id = none ∨ base = books

theorem getOrCreatePlanRow_got (h : getOrCreatePlanRow books org periodId = (base, plan)) :
    GotPlan books base plan := by
  unfold getOrCreatePlanRow at h
  split at h
  · next p hp =>
    obtain ⟨rfl, rfl⟩ := Prod.mk.inj h
    exact ⟨Table.get?_of_mem (List.mem_of_find?_eq_some hp), rfl, fun _ _ => rfl, .inr rfl⟩
  · obtain ⟨rfl, rfl⟩ := Prod.mk.inj h
    refine ⟨Table.get?_insert_next _ _, rfl, fun id hne => ?_, .inl (Table.get?_next _)⟩
    exact (Table.get?_insert _ _ _).trans (if_neg hne)

/-- A plan that was got or created is found again, whatever becomes of the items. -/
theorem planForPeriod?_of_got (h : getOrCreatePlanRow books org periodId = (base, plan))
    (hplans : books'.forecastPlans = base.forecastPlans) :
    planForPeriod? books' org periodId = some plan := by
  rw [planForPeriod?, hplans]
  unfold getOrCreatePlanRow at h
  split at h
  · next p hp =>
    obtain ⟨rfl, rfl⟩ := Prod.mk.inj h
    exact hp
  · next hnone =>
    obtain ⟨rfl, rfl⟩ := Prod.mk.inj h
    unfold planForPeriod? at hnone
    change List.find? _ (books.forecastPlans.rows ++ [_]) = _
    rw [List.find?_append, hnone]
    simp [Row.withId]

theorem getOrCreatePlanRow_again (h : getOrCreatePlanRow books org periodId = (base, plan))
    (hplans : books'.forecastPlans = base.forecastPlans) :
    getOrCreatePlanRow books' org periodId = (books', plan) := by
  rw [getOrCreatePlanRow, planForPeriod?_of_got h hplans]

/-! ### Edits -/

/-- A plan that is no active one. -/
def Books.Drafts (books : Books) (planId : ℕ) : Prop :=
  ∀ plan, books.forecastPlans.get? planId = some plan → plan.status ≠ .active

/-- One plan is changed and no other. -/
structure EditsPlan (planId : ℕ) (books books' : Books) : Prop where
  plans : ∀ id ≠ planId, books'.forecastPlans.get? id = books.forecastPlans.get? id
  items : ∀ id ≠ planId, planItems books' id = planItems books id
  unique : books.UniqueItems → books'.UniqueItems

namespace EditsPlan

theorem refl (planId : ℕ) (books : Books) : EditsPlan planId books books :=
  ⟨fun _ _ => rfl, fun _ _ => rfl, id⟩

theorem trans (h : EditsPlan planId books base) (h' : EditsPlan planId base books') :
    EditsPlan planId books books' :=
  ⟨fun id hid => (h'.plans id hid).trans (h.plans id hid),
    fun id hid => (h'.items id hid).trans (h.items id hid), h'.unique ∘ h.unique⟩

/-- An edit of items only. -/
theorem of_items (hplans : books'.forecastPlans = books.forecastPlans)
    (hitems : ∀ id ≠ planId, planItems books' id = planItems books id)
    (hunique : books.UniqueItems → books'.UniqueItems) : EditsPlan planId books books' :=
  ⟨fun _ _ => by rw [hplans], hitems, hunique⟩

/-- Storing a plan that was not there or that stays as it is. -/
theorem of_gotPlan (h : GotPlan books base plan) : EditsPlan plan.id books base :=
  ⟨h.others, fun id _ => by rw [planItems, h.items]; rfl, fun hunique => by
    rw [uniqueItems_iff, h.items]
    exact hunique⟩

/-- Adding items of the plan under new keys. -/
theorem of_addItems {items : List ForecastPlanItem} (hplan : ∀ i ∈ items, i.planId = planId)
    (hunique : books.UniqueItems → (addItems books items).UniqueItems) :
    EditsPlan planId books (addItems books items) := by
  refine of_items rfl (fun id hid => ?_) hunique
  obtain ⟨new, hrows, hcontent⟩ := rows_addItems books items
  have hnone : new.filter (fun i => decide (i.planId = id)) = [] := by
    refine List.filter_eq_nil_iff.mpr fun i hi => ?_
    rw [planId_of_content hcontent hplan i hi]
    simpa using hid.symm
  rw [planItems, hrows, List.filter_append, hnone, List.append_nil]
  rfl

theorem of_addSuggestions :
    EditsPlan plan.id books (addSuggestions average books org period plan) :=
  of_addItems (fun _ hi => (of_mem_suggestions hi).1) addSuggestions_unique

/-- Removing items of the plan. -/
theorem of_filter {keep : ForecastPlanItem → Bool}
    (hkeep : ∀ i ∈ books.forecastPlanItems.rows, i.planId ≠ planId → keep i = true) :
    EditsPlan planId books
      { books with forecastPlanItems := books.forecastPlanItems.filter keep } := by
  refine of_items rfl (fun id hid => ?_) fun h =>
    (List.filter_sublist.map ForecastPlanItem.planKey).nodup h
  change (books.forecastPlanItems.rows.filter keep).filter _ = _
  rw [List.filter_filter]
  refine List.filter_congr fun i hi => ?_
  by_cases hplan : i.planId = id
  · rw [hkeep i hi (hplan ▸ hid), Bool.and_true]
  · simp [hplan]

theorem of_dropGenerated : EditsPlan planId books (dropGenerated books planId) :=
  of_filter fun i _ hi => by simp [hi]

/-- Writing an item of the plan back under its key. -/
theorem of_put {item item' : ForecastPlanItem} (hitem : item ∈ planItems books planId)
    (hid : item'.id = item.id) (hplan : item'.planId = item.planId) (hkey : item'.key = item.key) :
    EditsPlan planId books
      { books with forecastPlanItems := books.forecastPlanItems.put item' } := by
  obtain ⟨hmem, hitemPlan⟩ := mem_planItems.mp hitem
  have hget : books.forecastPlanItems.get? (Row.id item') = some item := by
    rw [show Row.id item' = Row.id item from hid]
    exact Table.get?_of_mem hmem
  refine of_items rfl (fun id hne => ?_) fun h => ?_
  · refine Table.filter_put_of_not hget ?_ ?_
    · rw [hplan, hitemPlan]
      simpa using hne.symm
    · rw [hitemPlan]
      simpa using hne.symm
  · have hsame : item'.planKey = item.planKey := by
      rw [ForecastPlanItem.planKey, hplan, hkey]
      rfl
    rw [uniqueItems_iff] at h ⊢
    rwa [Table.map_put_of_eq hget hsame]

/-- Storing the status of a plan. -/
theorem of_setPlanStatus (status : PlanStatus) :
    EditsPlan plan.id books (setPlanStatus books plan status) :=
  ⟨fun _ hid => Table.get?_put_of_ne _ hid, fun _ _ => rfl, id⟩

theorem of_upsert (body : ForecastPlanItemCreate) :
    EditsPlan plan.id books (upsert org plan books body) := by
  unfold upsert
  split
  · next item hitem =>
    exact of_put (List.mem_of_find?_eq_some hitem) rfl rfl rfl
  · next hnone =>
    have hnew : (body.categoryId, body.type) ∉
        (planItems books plan.id).map ForecastPlanItem.key := by
      rintro hmem
      obtain ⟨i, hi, hik⟩ := List.mem_map.mp hmem
      exact absurd (decide_eq_true hik) (List.find?_eq_none.mp hnone i hi)
    have hone : ∀ i ∈ [newItem plan org .manual (body.categoryId, body.type) body.plannedAmount],
        i.planId = plan.id ∧ i.key = (body.categoryId, body.type) := by
      intro i hi
      rw [List.mem_singleton.mp hi]
      exact ⟨rfl, rfl⟩
    refine of_addItems (fun i hi => (hone i hi).1) fun h => ?_
    exact unique_addItems h (fun i hi => (hone i hi).1) (List.nodup_singleton _)
      fun i hi => (hone i hi).2 ▸ hnew

/-- The rows of one request one after another: a key may come again. -/
theorem of_upserts : ∀ (bodies : List ForecastPlanItemCreate) (books : Books),
    EditsPlan plan.id books (bodies.foldl (upsert org plan) books)
  | [], books => refl _ books
  | body :: bodies, _ => (of_upsert body).trans (of_upserts bodies _)

end EditsPlan

/-! ### Requests -/

/-- The requests on forecast plans. -/
inductive PlanRequest
  | getOrCreate (org : ℕ) (period : BillingPeriod)
  | populate (org : ℕ) (period : BillingPeriod)
  | refresh (org : ℕ) (period : BillingPeriod)
  | upsertItem (org planId : ℕ) (body : ForecastPlanItemCreate)
  | bulkUpsert (org planId : ℕ) (body : BulkUpsertRequest)
  | updateItem (org planId itemId : ℕ) (body : ForecastPlanItemUpdate)
  | deleteItem (org planId itemId : ℕ)
  | activate (org planId : ℕ)
  | revert (org planId : ℕ)
  | discard (org planId : ℕ)
  | copy (org : ℕ) (target source : BillingPeriod)

/-- The books after a request on plans. -/
def PlanRequest.serve (average : ℤ → ℕ → ℤ) (books : Books) : PlanRequest →
    Except ServiceError Books
  | getOrCreate org period => pure (getOrCreatePlan books org period)
  | populate org period => populateFromSources average books org period
  | refresh org period => refreshFromSources average books org period
  | upsertItem org planId body => Pfv.upsertItem books org planId body
  | bulkUpsert org planId body => Pfv.bulkUpsert books org planId body
  | updateItem org planId itemId body => Pfv.updateItem books org planId itemId body
  | deleteItem org planId itemId => Pfv.deleteItem books org planId itemId
  | activate org planId => activatePlan books org planId
  | revert org planId => revertToDraft books org planId
  | discard org planId => discardPlan books org planId
  | copy org target source => copyFromPeriod books org target source

theorem requireDraft_eq_ok {u : Unit} : requireDraft plan = .ok u ↔ plan.status ≠ .active :=
  raiseIf_eq_ok

theorem getPlan_eq_ok :
    getPlan books org planId = .ok plan ↔
      books.forecastPlans.get? planId = some plan ∧ plan.orgId = org := by
  rw [getPlan, orRaise_eq_ok, Option.filter_eq_some_iff, decide_eq_true_eq]

theorem getItem_eq_ok {itemId : ℕ} {item : ForecastPlanItem}
    (h : getItem books plan itemId = .ok item) : item ∈ planItems books plan.id :=
  List.mem_of_find?_eq_some (orRaise_eq_ok.mp h)

/-- The requests that act on a plan by its id find it and refuse an active one. -/
theorem of_onDraft {f : ForecastPlan → Except ServiceError Books}
    (h : (getPlan books org planId >>= fun plan => requireDraft plan >>= fun _ => f plan) =
      .ok books') :
    ∃ plan, plan.id = planId ∧ books.Drafts planId ∧ f plan = .ok books' := by
  simp only [bind_eq_ok, getPlan_eq_ok, requireDraft_eq_ok] at h
  obtain ⟨plan, ⟨hget, -⟩, -, hdraft, h⟩ := h
  refine ⟨plan, Table.get?_id hget, fun p hp => ?_, h⟩
  rw [hget, Option.some_inj] at hp
  exact hp ▸ hdraft

theorem GotPlan.drafts (h : GotPlan books base plan) (hdraft : plan.status ≠ .active) :
    books.Drafts plan.id := by
  intro p hp
  rcases h.before with hnone | rfl
  · rw [hnone] at hp
    simp at hp
  · rw [h.stored, Option.some_inj] at hp
    exact hp ▸ hdraft

theorem populateFromSources_eq_ok :
    populateFromSources average books org period = .ok books' ↔
      ∃ base plan, getOrCreatePlanRow books org period.id = (base, plan) ∧ plan.status ≠ .active ∧
        (addSuggestions average base org period plan).AmountsFit ∧
        (addSuggestions average base org period plan).UniqueItems ∧
        addSuggestions average base org period plan = books' := by
  unfold populateFromSources
  rcases getOrCreatePlanRow books org period.id with ⟨base, plan⟩
  dsimp only
  rw [unit_bind_eq_ok, requireDraft_eq_ok, flushItems_eq_ok]
  constructor
  · rintro ⟨hdraft, hfit, hunique, h⟩
    exact ⟨base, plan, rfl, hdraft, hfit, hunique, h⟩
  · rintro ⟨_, _, heq, hdraft, hfit, hunique, h⟩
    obtain ⟨rfl, rfl⟩ := Prod.mk.inj heq
    exact ⟨hdraft, hfit, hunique, h⟩

theorem refreshFromSources_eq_ok :
    refreshFromSources average books org period = .ok books' ↔
      ∃ base plan, getOrCreatePlanRow books org period.id = (base, plan) ∧ plan.status ≠ .active ∧
        (addSuggestions average (dropGenerated base plan.id) org period plan).AmountsFit ∧
        (addSuggestions average (dropGenerated base plan.id) org period plan).UniqueItems ∧
        addSuggestions average (dropGenerated base plan.id) org period plan = books' := by
  unfold refreshFromSources
  rcases hrow : getOrCreatePlanRow books org period.id with ⟨base, plan⟩
  dsimp only
  rw [unit_bind_eq_ok, requireDraft_eq_ok, populateFromSources_eq_ok]
  constructor
  · rintro ⟨hdraft, _, _, heq, -, hfit, hunique, h⟩
    have hagain : getOrCreatePlanRow (dropGenerated base plan.id) org period.id = _ :=
      getOrCreatePlanRow_again hrow rfl
    obtain ⟨rfl, rfl⟩ := Prod.mk.inj (hagain.symm.trans heq)
    exact ⟨base, plan, rfl, hdraft, hfit, hunique, h⟩
  · rintro ⟨_, _, heq, hdraft, hfit, hunique, h⟩
    obtain ⟨rfl, rfl⟩ := Prod.mk.inj heq
    exact ⟨hdraft, _, _, getOrCreatePlanRow_again hrow rfl, hdraft, hfit, hunique, h⟩

/-- What a copy adds to a plan. -/
def copiedItems (books base : Books) (org : ℕ) (sourcePlan plan : ForecastPlan) :
    List ForecastPlanItem :=
  ((planItems books sourcePlan.id).filter
    (·.key ∉ (planItems base plan.id).map ForecastPlanItem.key)).map fun i =>
      newItem plan org .manual i.key i.plannedAmount

theorem copyFromPeriod_eq_ok {target source : BillingPeriod}
    (h : copyFromPeriod books org target source = .ok books') :
    ∃ sourcePlan base plan, getOrCreatePlanRow books org target.id = (base, plan) ∧
      plan.status ≠ .active ∧ addItems base (copiedItems books base org sourcePlan plan) =
        books' := by
  unfold copyFromPeriod at h
  rw [orRaise_bind_eq_ok] at h
  obtain ⟨sourcePlan, -, h⟩ := h
  rcases hrow : getOrCreatePlanRow books org target.id with ⟨base, plan⟩
  rw [hrow] at h
  dsimp only at h
  rw [unit_bind_eq_ok, requireDraft_eq_ok, flushItems_eq_ok] at h
  exact ⟨sourcePlan, base, plan, rfl, h.1, h.2.2.2⟩

theorem planId_copiedItems {sourcePlan : ForecastPlan} {i : ForecastPlanItem}
    (hi : i ∈ copiedItems books base org sourcePlan plan) :
    i.planId = plan.id ∧ i.key ∉ (planItems base plan.id).map ForecastPlanItem.key := by
  obtain ⟨j, hj, rfl⟩ := List.mem_map.mp hi
  exact ⟨rfl, of_decide_eq_true (List.mem_filter.mp hj).2⟩

/-- The items of one plan have different keys. -/
theorem Books.UniqueItems.nodup_key (h : books.UniqueItems) (planId : ℕ) :
    ((planItems books planId).map ForecastPlanItem.key).Nodup := by
  have hnodup : ((planItems books planId).map ForecastPlanItem.planKey).Nodup :=
    (List.filter_sublist.map _).nodup h
  have hpair : ((planItems books planId).map ForecastPlanItem.key).map (fun k => (planId, k)) =
      (planItems books planId).map ForecastPlanItem.planKey := by
    rw [List.map_map]
    exact List.map_congr_left fun i hi => by
      rw [ForecastPlanItem.planKey, (mem_planItems.mp hi).2]
      rfl
  exact (hpair ▸ hnodup).of_map

/-- The copies of the items of a plan have different keys, new to the other plan. -/
theorem copiedItems_unique (h : books.UniqueItems) (hbase : base.UniqueItems)
    {sourcePlan : ForecastPlan} :
    (addItems base (copiedItems books base org sourcePlan plan)).UniqueItems := by
  have hkeys : (copiedItems books base org sourcePlan plan).map ForecastPlanItem.key =
      ((planItems books sourcePlan.id).filter
        (·.key ∉ (planItems base plan.id).map ForecastPlanItem.key)).map ForecastPlanItem.key := by
    rw [copiedItems, List.map_map]
    rfl
  refine unique_addItems hbase (fun i hi => (planId_copiedItems hi).1) ?_
    fun i hi => (planId_copiedItems hi).2
  rw [hkeys]
  exact (List.filter_sublist.map _).nodup (h.nodup_key sourcePlan.id)

theorem GotPlan.unique_iff (h : GotPlan books base plan) :
    base.UniqueItems ↔ books.UniqueItems := by
  rw [uniqueItems_iff, h.items]
  rfl

/-- A successful request changes nothing, or one draft, or reverts a plan. -/
theorem PlanRequest.serve_edits {r : PlanRequest} (h : r.serve average books = .ok books') :
    books' = books ∨ ∃ planId, EditsPlan planId books books' ∧
      (books.Drafts planId ∨
        ∃ plan, books.forecastPlans.get? planId = some plan ∧ r = .revert plan.orgId planId) := by
  cases r with
  | getOrCreate org period =>
    rcases hrow : getOrCreatePlanRow books org period.id with ⟨base, plan⟩
    have hgot := getOrCreatePlanRow_got hrow
    have hbase : base = books' := by
      simpa [serve, getOrCreatePlan, hrow, pure_eq_ok] using h
    subst hbase
    rcases hgot.before with hnone | hsame
    · exact .inr ⟨plan.id, .of_gotPlan hgot, .inl fun p hp => by simp [hnone] at hp⟩
    · exact .inl hsame
  | populate org period =>
    obtain ⟨base, plan, hrow, hdraft, -, -, rfl⟩ := populateFromSources_eq_ok.mp h
    have hgot := getOrCreatePlanRow_got hrow
    exact .inr ⟨plan.id, (EditsPlan.of_gotPlan hgot).trans .of_addSuggestions,
      .inl (hgot.drafts hdraft)⟩
  | refresh org period =>
    obtain ⟨base, plan, hrow, hdraft, -, -, rfl⟩ := refreshFromSources_eq_ok.mp h
    have hgot := getOrCreatePlanRow_got hrow
    exact .inr ⟨plan.id,
      (EditsPlan.of_gotPlan hgot).trans (EditsPlan.of_dropGenerated.trans .of_addSuggestions),
      .inl (hgot.drafts hdraft)⟩
  | upsertItem org planId body =>
    unfold serve Pfv.upsertItem at h
    obtain ⟨plan, rfl, hdrafts, h⟩ := of_onDraft h
    rw [unit_bind_eq_ok, flushItems_eq_ok] at h
    obtain ⟨-, -, -, rfl⟩ := h
    exact .inr ⟨plan.id, .of_upsert body, .inl hdrafts⟩
  | bulkUpsert org planId body =>
    unfold serve Pfv.bulkUpsert at h
    obtain ⟨plan, rfl, hdrafts, h⟩ := of_onDraft h
    dsimp only at h
    rw [raiseIf_bind_eq_ok, unit_bind_eq_ok, flushItems_eq_ok] at h
    obtain ⟨-, -, -, -, rfl⟩ := h
    exact .inr ⟨plan.id, .of_upserts _ _, .inl hdrafts⟩
  | updateItem org planId itemId body =>
    unfold serve Pfv.updateItem at h
    obtain ⟨plan, rfl, hdrafts, h⟩ := of_onDraft h
    simp only [bind_eq_ok, flushItems_eq_ok] at h
    obtain ⟨item, hitem, -, -, rfl⟩ := h
    exact .inr ⟨plan.id, .of_put (getItem_eq_ok hitem) rfl rfl rfl, .inl hdrafts⟩
  | deleteItem org planId itemId =>
    unfold serve Pfv.deleteItem at h
    obtain ⟨plan, rfl, hdrafts, h⟩ := of_onDraft h
    simp only [bind_eq_ok, pure_eq_ok] at h
    obtain ⟨item, hitem, rfl⟩ := h
    obtain ⟨hmem, hitemPlan⟩ := mem_planItems.mp (getItem_eq_ok hitem)
    refine .inr ⟨plan.id, .of_filter fun i hi hne => ?_, .inl hdrafts⟩
    -- An item of another plan has another primary key.
    refine decide_eq_true fun hid => hne ?_
    rw [Table.get?_inj (Table.get?_of_mem hi) (Table.get?_of_mem hmem) hid, hitemPlan]
  | activate org planId =>
    unfold serve activatePlan at h
    obtain ⟨plan, rfl, hdrafts, h⟩ := of_onDraft h
    rw [raiseIf_bind_eq_ok, pure_eq_ok] at h
    obtain ⟨-, rfl⟩ := h
    exact .inr ⟨plan.id, .of_setPlanStatus _, .inl hdrafts⟩
  | revert org planId =>
    unfold serve revertToDraft at h
    simp only [bind_eq_ok, pure_eq_ok] at h
    obtain ⟨plan, hplan, _, -, rfl⟩ := h
    obtain ⟨hget, rfl⟩ := getPlan_eq_ok.mp hplan
    obtain rfl : plan.id = planId := Table.get?_id hget
    exact .inr ⟨plan.id, .of_setPlanStatus _, .inr ⟨plan, hget, rfl⟩⟩
  | discard org planId =>
    unfold serve discardPlan at h
    obtain ⟨plan, rfl, hdrafts, h⟩ := of_onDraft h
    rw [pure_eq_ok] at h
    subst h
    refine .inr ⟨plan.id, EditsPlan.trans (.of_filter fun i _ hne => ?_) (.of_setPlanStatus _),
      .inl hdrafts⟩
    exact decide_eq_true hne
  | copy org target source =>
    obtain ⟨sourcePlan, base, plan, hrow, hdraft, rfl⟩ := copyFromPeriod_eq_ok h
    have hgot := getOrCreatePlanRow_got hrow
    refine .inr ⟨plan.id, (EditsPlan.of_gotPlan hgot).trans
      (.of_addItems (fun i hi => (planId_copiedItems hi).1) fun hbase => ?_),
      .inl (hgot.drafts hdraft)⟩
    exact copiedItems_unique (hgot.unique_iff.mp hbase) hbase

/-! ### Manual items -/

/-- Every manual item stays as it is. -/
def KeepsManual (books books' : Books) : Prop :=
  ∀ i ∈ books.forecastPlanItems.rows, i.source = .manual → i ∈ books'.forecastPlanItems.rows

theorem keepsManual_addItems (books : Books) (items : List ForecastPlanItem) :
    KeepsManual books (addItems books items) := by
  obtain ⟨new, hrows, -⟩ := rows_addItems books items
  intro i hi _
  rw [hrows]
  exact List.mem_append_left new hi

theorem keepsManual_dropGenerated (books : Books) (planId : ℕ) :
    KeepsManual books (dropGenerated books planId) :=
  fun _ hi hmanual => List.mem_filter.mpr ⟨hi, by simp [hmanual]⟩

/-- The requests that generate items or copy them. -/
def PlanRequest.Generates : PlanRequest → Prop
  | populate .. => True
  | refresh .. => True
  | copy .. => True
  | _ => False

theorem PlanRequest.keepsManual {r : PlanRequest} (hr : r.Generates)
    (h : r.serve average books = .ok books') : KeepsManual books books' := by
  -- Getting or creating the plan leaves the items.
  have hbase : ∀ {org periodId base plan}, getOrCreatePlanRow books org periodId = (base, plan) →
      KeepsManual base books' → KeepsManual books books' := fun hrow hkeeps i hi =>
    hkeeps i ((getOrCreatePlanRow_got hrow).items ▸ hi)
  cases r with
  | populate org period =>
    obtain ⟨base, plan, hrow, -, -, -, rfl⟩ := populateFromSources_eq_ok.mp h
    exact hbase hrow (keepsManual_addItems base _)
  | refresh org period =>
    obtain ⟨base, plan, hrow, -, -, -, rfl⟩ := refreshFromSources_eq_ok.mp h
    refine hbase hrow fun i hi hmanual => ?_
    exact keepsManual_addItems _ _ i (keepsManual_dropGenerated base plan.id i hi hmanual) hmanual
  | copy org target source =>
    obtain ⟨sourcePlan, base, plan, hrow, -, rfl⟩ := copyFromPeriod_eq_ok h
    exact hbase hrow (keepsManual_addItems base _)
  | _ => exact hr.elim

/-! ### Generating twice -/

/-- What a user sees of an item. -/
def ForecastPlanItem.line (i : ForecastPlanItem) : ℕ × EntryType × ℤ × ItemSource :=
  (i.categoryId, i.type, i.plannedAmount, i.source)

/-- The lines of a plan. -/
def planLines (books : Books) (planId : ℕ) : List (ℕ × EntryType × ℤ × ItemSource) :=
  (planItems books planId).map ForecastPlanItem.line

theorem planLines_eq (books : Books) (planId : ℕ) :
    planLines books planId = ((books.forecastPlanItems.rows.map ForecastPlanItem.content).filter
      (·.planId = planId)).map ForecastPlanItem.line := by
  rw [List.filter_map, List.map_map]
  rfl

/-- The lines of a plan after items are added to it. -/
theorem planLines_addItems {items : List ForecastPlanItem}
    (hplan : ∀ i ∈ items, i.planId = planId) :
    planLines (addItems books items) planId =
      planLines books planId ++ items.map ForecastPlanItem.line := by
  obtain ⟨new, hrows, hcontent⟩ := rows_addItems books items
  have hall : (items.map ForecastPlanItem.content).filter (fun i => i.planId = planId) =
      items.map ForecastPlanItem.content :=
    List.filter_eq_self.mpr fun j hj => by
      obtain ⟨i, hi, rfl⟩ := List.mem_map.mp hj
      exact decide_eq_true (hplan i hi)
  rw [planLines_eq, planLines_eq, hrows, List.map_append, hcontent, List.filter_append, hall,
    List.map_append, List.map_map (f := ForecastPlanItem.content)]
  rfl

/-- Suggestions depend on no items but those under the existing keys. -/
theorem suggestions_addItems (items : List ForecastPlanItem) :
    suggestions average (addItems books items) org period plan existing =
      suggestions average books org period plan existing :=
  rfl

theorem suggestions_dropGenerated :
    suggestions average (dropGenerated books planId) org period plan existing =
      suggestions average books org period plan existing :=
  rfl

theorem addSuggestions_again :
    addSuggestions average (addSuggestions average books org period plan) org period plan =
      addSuggestions average books org period plan := by
  obtain ⟨new, hrows, hcontent⟩ := rows_addItems books
    (suggestions average books org period plan ((planItems books plan.id).map ForecastPlanItem.key))
  have hnil : suggestions average (addSuggestions average books org period plan) org period plan
      ((planItems (addSuggestions average books org period plan) plan.id).map
        ForecastPlanItem.key) = [] := by
    have hplan := planId_of_content hcontent fun i hi => (of_mem_suggestions hi).1
    have hitems : planItems (addSuggestions average books org period plan) plan.id =
        planItems books plan.id ++ new := by
      rw [planItems, addSuggestions, hrows, List.filter_append,
        List.filter_eq_self.mpr fun i hi => decide_eq_true (hplan i hi)]
      rfl
    rw [addSuggestions, suggestions_addItems, ← addSuggestions, hitems, List.map_append]
    refine suggestions_eq_nil (List.subset_append_left _ _) fun i hi => List.mem_append_right _ ?_
    obtain ⟨j, hj, hji⟩ := List.mem_map.mp (hcontent ▸ List.mem_map_of_mem hi)
    have hkey : j.content.key = i.content.key := congrArg ForecastPlanItem.key hji
    exact List.mem_map.mpr ⟨j, hj, hkey⟩
  rw [addSuggestions, hnil]
  rfl

/-- Populating a plan that was populated changes nothing. -/
theorem populateFromSources_again (h : populateFromSources average books org period = .ok books') :
    populateFromSources average books' org period = .ok books' := by
  obtain ⟨base, plan, hrow, hdraft, hfit, hunique, rfl⟩ := populateFromSources_eq_ok.mp h
  refine populateFromSources_eq_ok.mpr ⟨_, plan, getOrCreatePlanRow_again hrow rfl, hdraft, ?_, ?_,
    addSuggestions_again⟩
  · rw [addSuggestions_again]
    exact hfit
  · rw [addSuggestions_again]
    exact hunique

/-- Dropping the generated items from a plan that was refreshed gives the items it had when they
were dropped before. -/
theorem rows_dropGenerated_again :
    (dropGenerated (addSuggestions average (dropGenerated base plan.id) org period plan)
      plan.id).forecastPlanItems.rows = (dropGenerated base plan.id).forecastPlanItems.rows := by
  obtain ⟨new, hrows, hcontent⟩ := rows_addItems (dropGenerated base plan.id)
    (suggestions average (dropGenerated base plan.id) org period plan
      ((planItems (dropGenerated base plan.id) plan.id).map ForecastPlanItem.key))
  have hgone : ∀ i ∈ new, i.planId = plan.id ∧ i.source ≠ .manual := by
    intro i hi
    obtain ⟨j, hj, hji⟩ := List.mem_map.mp (hcontent ▸ List.mem_map_of_mem hi)
    obtain ⟨hplan, hsource⟩ := of_mem_suggestions hj
    have hplan' : j.content.planId = i.content.planId := congrArg ForecastPlanItem.planId hji
    have hsource' : j.content.source = i.content.source := congrArg ForecastPlanItem.source hji
    exact ⟨hplan'.symm.trans hplan, fun hmanual => hsource (hsource'.trans hmanual)⟩
  have hnone : new.filter (fun i => ¬(i.planId = plan.id ∧ i.source ≠ .manual)) = [] :=
    List.filter_eq_nil_iff.mpr fun i hi => by simp [hgone i hi]
  change List.filter _ (addSuggestions average _ org period plan).forecastPlanItems.rows =
    List.filter _ base.forecastPlanItems.rows
  rw [addSuggestions, hrows, List.filter_append, hnone, List.append_nil]
  change List.filter _ (List.filter _ _) = _
  rw [List.filter_filter]
  simp only [Bool.and_self]

/-- Refreshing a plan that was refreshed derives the same lines. -/
theorem refreshFromSources_again (hunique : books.UniqueItems)
    (h : refreshFromSources average books org period = .ok books') :
    ∃ twice, refreshFromSources average books' org period = .ok twice ∧
      ∀ id, planLines twice id = planLines books' id := by
  obtain ⟨base, plan, hrow, hdraft, hfit, -, rfl⟩ := refreshFromSources_eq_ok.mp h
  set dropped := dropGenerated base plan.id with hdropped
  set once := addSuggestions average dropped org period plan with honce
  have hgot := getOrCreatePlanRow_got hrow
  have honce' : once.UniqueItems :=
    addSuggestions_unique (EditsPlan.of_dropGenerated.unique (hgot.unique_iff.mpr hunique))
  have hrows : (dropGenerated once plan.id).forecastPlanItems.rows =
      dropped.forecastPlanItems.rows := rows_dropGenerated_again
  -- The second time the same items are derived, under new primary keys.
  have hsame : suggestions average (dropGenerated once plan.id) org period plan
      ((planItems (dropGenerated once plan.id) plan.id).map ForecastPlanItem.key) =
        suggestions average dropped org period plan
          ((planItems dropped plan.id).map ForecastPlanItem.key) := by
    rw [planItems, hrows, suggestions_dropGenerated, honce, addSuggestions, suggestions_addItems]
    rfl
  have hcontents : (addSuggestions average (dropGenerated once plan.id) org period
        plan).forecastPlanItems.rows.map ForecastPlanItem.content =
      once.forecastPlanItems.rows.map ForecastPlanItem.content := by
    rw [addSuggestions, hsame]
    obtain ⟨new, hnew, hcontent⟩ :=
      rows_addItems dropped (suggestions average dropped org period plan
        ((planItems dropped plan.id).map ForecastPlanItem.key))
    obtain ⟨new', hnew', hcontent'⟩ := rows_addItems (dropGenerated once plan.id)
      (suggestions average dropped org period plan
        ((planItems dropped plan.id).map ForecastPlanItem.key))
    rw [hnew', hrows, List.map_append, hcontent', ← hcontent, ← List.map_append, ← hnew]
    rfl
  refine ⟨addSuggestions average (dropGenerated once plan.id) org period plan,
    refreshFromSources_eq_ok.mpr ⟨once, plan, getOrCreatePlanRow_again hrow rfl, hdraft,
      hfit.of_content hcontents,
      addSuggestions_unique (EditsPlan.of_dropGenerated.unique honce'), rfl⟩, fun id => ?_⟩
  rw [planLines_eq, planLines_eq, hcontents]

/-! ### The unique key -/

/-- The error of the database for a second item under the key of another. -/
def itemKeyTaken : ServiceError :=
  .database "uq_forecast_item_plan_cat_type"

theorem flushItems_ne_keyTaken (h : books.UniqueItems) :
    flushItems books ≠ .error itemKeyTaken := by
  unfold flushItems
  refine bind_ne_error (raiseIf_ne_error (by simp [itemKeyTaken])) fun _ _ =>
    bind_ne_error (fun htaken => ?_) fun _ _ hpure => by cases hpure
  exact (raiseIf_eq_error.mp htaken).1 h

theorem requireDraft_ne_keyTaken : requireDraft plan ≠ .error itemKeyTaken :=
  raiseIf_ne_error (by simp [itemKeyTaken])

theorem onDraft_ne_keyTaken {f : ForecastPlan → Except ServiceError Books}
    (hf : ∀ plan, f plan ≠ .error itemKeyTaken) :
    (getPlan books org planId >>= fun plan => requireDraft plan >>= fun _ => f plan) ≠
      .error itemKeyTaken :=
  bind_ne_error (orRaise_ne_error (by simp [itemKeyTaken])) fun plan _ =>
    bind_ne_error requireDraft_ne_keyTaken fun _ _ => hf plan

theorem populateFromSources_ne_keyTaken (hunique : books.UniqueItems) :
    populateFromSources average books org period ≠ .error itemKeyTaken := by
  unfold populateFromSources
  rcases hrow : getOrCreatePlanRow books org period.id with ⟨base, plan⟩
  refine bind_ne_error requireDraft_ne_keyTaken fun _ _ => flushItems_ne_keyTaken ?_
  exact addSuggestions_unique ((getOrCreatePlanRow_got hrow).unique_iff.mpr hunique)

theorem refreshFromSources_ne_keyTaken (hunique : books.UniqueItems) :
    refreshFromSources average books org period ≠ .error itemKeyTaken := by
  unfold refreshFromSources
  rcases hrow : getOrCreatePlanRow books org period.id with ⟨base, plan⟩
  refine bind_ne_error requireDraft_ne_keyTaken fun _ _ => populateFromSources_ne_keyTaken ?_
  exact EditsPlan.of_dropGenerated.unique ((getOrCreatePlanRow_got hrow).unique_iff.mpr hunique)

/-- The code keeps the items of a plan apart by itself: no request fails on their unique key. -/
theorem PlanRequest.serve_ne_keyTaken (hunique : books.UniqueItems) (r : PlanRequest) :
    r.serve average books ≠ .error itemKeyTaken := by
  cases r with
  | getOrCreate org period => simp [serve, pure, Except.pure]
  | populate org period => exact populateFromSources_ne_keyTaken hunique
  | refresh org period => exact refreshFromSources_ne_keyTaken hunique
  | upsertItem org planId body =>
    refine onDraft_ne_keyTaken fun plan => bind_ne_error ?_ fun _ _ =>
      flushItems_ne_keyTaken ((EditsPlan.of_upsert body).unique hunique)
    refine bind_ne_error (orRaise_ne_error (by simp [itemKeyTaken])) fun cat _ => ?_
    exact bind_ne_error (raiseIf_ne_error (by simp [itemKeyTaken])) fun _ _ =>
      raiseIf_ne_error (by simp [itemKeyTaken])
  | bulkUpsert org planId body =>
    refine onDraft_ne_keyTaken fun plan =>
      bind_ne_error (raiseIf_ne_error (by simp [itemKeyTaken])) fun _ _ =>
        bind_ne_error (forM_ne_error (fun item => ?_) _) fun _ _ =>
          flushItems_ne_keyTaken ((EditsPlan.of_upserts _ _).unique hunique)
    exact bind_ne_error (orRaise_ne_error (by simp [itemKeyTaken])) fun cat _ =>
      raiseIf_ne_error (by simp [itemKeyTaken])
  | updateItem org planId itemId body =>
    exact onDraft_ne_keyTaken fun plan =>
      bind_ne_error (orRaise_ne_error (by simp [itemKeyTaken])) fun item hitem =>
        flushItems_ne_keyTaken
          (EditsPlan.unique (.of_put (getItem_eq_ok hitem) rfl rfl rfl) hunique)
  | deleteItem org planId itemId =>
    exact onDraft_ne_keyTaken fun plan =>
      bind_ne_error (orRaise_ne_error (by simp [itemKeyTaken])) fun _ _ => by
        simp [pure, Except.pure]
  | activate org planId =>
    exact onDraft_ne_keyTaken fun plan =>
      bind_ne_error (raiseIf_ne_error (by simp [itemKeyTaken])) fun _ _ => by
        simp [pure, Except.pure]
  | revert org planId =>
    exact bind_ne_error (orRaise_ne_error (by simp [itemKeyTaken])) fun plan _ =>
      bind_ne_error (raiseIf_ne_error (by simp [itemKeyTaken])) fun _ _ => by
        simp [pure, Except.pure]
  | discard org planId => exact onDraft_ne_keyTaken fun plan => by simp [pure, Except.pure]
  | copy org target source =>
    refine bind_ne_error (orRaise_ne_error (by simp [itemKeyTaken])) fun sourcePlan _ => ?_
    dsimp only
    rcases hrow : getOrCreatePlanRow books org target.id with ⟨base, plan⟩
    refine bind_ne_error requireDraft_ne_keyTaken fun _ _ => flushItems_ne_keyTaken ?_
    exact copiedItems_unique hunique ((getOrCreatePlanRow_got hrow).unique_iff.mpr hunique)

/-! ### Runs -/

/-- An active plan and its items stay as they are until the plan is reverted. -/
theorem PlanRequest.serve_active {r : PlanRequest} (hr : r ≠ .revert plan.orgId planId)
    (hplan : books.forecastPlans.get? planId = some plan) (hactive : plan.status = .active)
    (h : r.serve average books = .ok books') :
    books'.forecastPlans.get? planId = some plan ∧
    planItems books' planId = planItems books planId := by
  rcases serve_edits h with rfl | ⟨id, hedits, hwhy⟩
  · exact ⟨hplan, rfl⟩
  · have hne : planId ≠ id := by
      rintro rfl
      rcases hwhy with hdrafts | ⟨p, hp, rfl⟩
      · exact hdrafts plan hplan hactive
      · rw [hplan, Option.some_inj] at hp
        exact hr (hp ▸ rfl)
    exact ⟨(hedits.plans _ hne).trans hplan, hedits.items _ hne⟩

theorem serveAll_unique (hunique : books.UniqueItems) (rs : List PlanRequest) :
    (serveAll (PlanRequest.serve average) books rs).UniqueItems := by
  have hall : Admits (fun _ _ => True) (PlanRequest.serve average) books rs :=
    admits_of_forall (p := fun _ => True) (fun _ _ h => h) rs _ fun _ _ => trivial
  refine serveAll_invariant (fun s r s' hs _ hstep => ?_) rs hunique hall
  rcases PlanRequest.serve_edits hstep with rfl | ⟨_, hedits, -⟩
  · exact hs
  · exact hedits.unique hs

/-- What a state of the books promises about plans. -/
structure PlansProtected (average : ℤ → ℕ → ℤ) (now : Books) : Prop where
  unique : now.UniqueItems
  accepted : ∀ r : PlanRequest, r.serve average now ≠ .error itemKeyTaken
  active : ∀ planId plan, now.forecastPlans.get? planId = some plan → plan.status = .active →
    ∀ rs, .revert plan.orgId planId ∉ rs →
      planItems (serveAll (PlanRequest.serve average) now rs) planId = planItems now planId
  manual : ∀ r : PlanRequest, r.Generates → ∀ after, r.serve average now = .ok after →
    KeepsManual now after
  populate : ∀ org period once, populateFromSources average now org period = .ok once →
    populateFromSources average once org period = .ok once
  refresh : ∀ org period once, refreshFromSources average now org period = .ok once →
    ∃ twice, refreshFromSources average once org period = .ok twice ∧
      ∀ id, planLines twice id = planLines once id

/-- After every run of requests, from books in which the items of every plan are unique: they still
are, and no request fails on their key; the items of an active plan stay as they are along every run
that does not revert it; generating and copying keep every manual item; and to populate or refresh
twice gives the lines that doing it once gives. -/
theorem plans_protected (average : ℤ → ℕ → ℤ) {books : Books} (hunique : books.UniqueItems)
    (rs : List PlanRequest) :
    PlansProtected average (serveAll (PlanRequest.serve average) books rs) := by
  have hnow : (serveAll (PlanRequest.serve average) books rs).UniqueItems :=
    serveAll_unique hunique rs
  refine ⟨hnow, PlanRequest.serve_ne_keyTaken hnow, fun planId plan hplan hactive rs' hrs' => ?_,
    fun r hr _ h => PlanRequest.keepsManual hr h, fun _ _ _ h => populateFromSources_again h,
    fun _ _ _ h => refreshFromSources_again hnow h⟩
  generalize serveAll (PlanRequest.serve average) books rs = now at hplan
  -- Along the run the plan stays the active one it is, and so do its items.
  have hall :
      Admits (fun _ r => r ≠ .revert plan.orgId planId) (PlanRequest.serve average) now rs' :=
    admits_of_forall (fun _ _ h => h) rs' now fun r hr heq => hrs' (heq ▸ hr)
  refine (serveAll_invariant
    (I := fun s => s.forecastPlans.get? planId = some plan ∧
      planItems s planId = planItems now planId)
    (fun s r s' hs hr hstep => ?_) rs' ⟨hplan, rfl⟩ hall).2
  obtain ⟨hplan', hitems'⟩ := PlanRequest.serve_active hr hs.1 hactive hstep
  exact ⟨hplan', hitems'.trans hs.2⟩

/-! ### Sample books -/

def sampleMonth : BillingPeriod :=
  { id := 1, orgId := 1, startDate := .of 2024 1 1 }

/-- A draft with an item a user wrote and one from a template that is gone. -/
def sampleDraft : Books where
  accountTypes := .empty
  accounts := .empty
  categories := (Table.empty.insert { orgId := 1, name := "Home" }).insert
    { orgId := 1, name := "Food" }
  transactions := .empty
  recurring := .empty
  importBatches := .empty
  categoryRules := .empty
  budgets := .empty
  forecastPlans := Table.empty.insert { orgId := 1, billingPeriodId := 1 }
  forecastPlanItems := (Table.empty.insert
    { planId := 1, orgId := 1, categoryId := 1, type := .expense, plannedAmount := 900 }).insert
    { planId := 1, orgId := 1, categoryId := 2, type := .expense, plannedAmount := 300
      source := .recurring }

/-- Refreshed and activated, the draft keeps the item of the user. -/
theorem protected_of_sampleDraft :
    sampleDraft.UniqueItems ∧ PlansProtected (fun sum n => sum / n)
      (serveAll (PlanRequest.serve fun sum n => sum / n) sampleDraft
        [.refresh 1 sampleMonth, .activate 1 1]) :=
  have h : sampleDraft.UniqueItems := by decide
  ⟨h, plans_protected _ h _⟩

example : planLines (serveAll (PlanRequest.serve fun sum n => sum / n) sampleDraft
    [.refresh 1 sampleMonth, .activate 1 1]) 1 = [(1, .expense, 900, .manual)] := by
  decide +kernel

end Pfv
