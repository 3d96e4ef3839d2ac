import Pfv.Categories.Tree
import Pfv.Planning.Actuals

/-!
# Deleting a category with migration

A delete moves the transactions, recurring templates and forecast plan items of a category to a
target. Its guards look at the types of the two categories and at how many rows use the source. They
do not look at the forecast plans: the target may be a subcategory, and it may have an item with the
plan and the type of one that moves.

## Main definitions

* `Books.rehomed`: every row of the source moved to the target, and the source gone.
* `Migrated`: what a delete with migration is for.
* `Rehomable`: the joint condition on source and target.

## Main results

* `deleteCategory_migrated_iff`: a delete that passes its guards migrates the rows exactly when
  source and target are so.
-/

namespace Pfv

/-! ### What a migration is for -/

/-- Where a reference to a category goes when the category is deleted. -/
def rehome (id : ℕ) (target : Option ℕ) (k : ℕ) : ℕ :=
  if k = id then target.getD k else k

namespace Books

/-- Every row of the source moved to the target; the source, its rules and its budgets gone. -/
def rehomed (books : Books) (id : ℕ) (target : Option ℕ) : Books :=
  { books with
    transactions := books.transactions.mapRows
      (fun t => { t with categoryId := rehome id target t.categoryId }) fun _ => rfl
    recurring := books.recurring.mapRows
      (fun r => { r with categoryId := rehome id target r.categoryId }) fun _ => rfl
    forecastPlanItems := books.forecastPlanItems.mapRows
      (fun i => { i with categoryId := rehome id target i.categoryId }) fun _ => rfl
    categoryRules := books.categoryRules.filter (·.categoryId ≠ id)
    budgets := books.budgets.filter (·.categoryId ≠ id)
    categories := books.categories.filter (·.id ≠ id) }

/-- Every reference to a category is satisfied. -/
structure CategoryKeys (books : Books) : Prop where
  transactions : ∀ t ∈ books.transactions.rows, (books.categories.get? t.categoryId).isSome = true
  recurring : ∀ r ∈ books.recurring.rows, (books.categories.get? r.categoryId).isSome = true
  items : ∀ i ∈ books.forecastPlanItems.rows, (books.categories.get? i.categoryId).isSome = true
  budgets : ∀ b ∈ books.budgets.rows, (books.categories.get? b.categoryId).isSome = true
  rules : ∀ r ∈ books.categoryRules.rows, (books.categories.get? r.categoryId).isSome = true
  parents : ∀ c ∈ books.categories.rows, ∀ p ∈ c.parentId, (books.categories.get? p).isSome = true

/-- A category type admits the transactions, templates and items under a category. -/
structure RowsAdmitted (books : Books) (id : ℕ) (type : CategoryType) : Prop where
  transactions : ∀ e ∈ type.excludes, ∀ t ∈ books.transactions.rows, t.categoryId = id →
    t.type ≠ e.toTransactionType
  recurring : ∀ e ∈ type.excludes, ∀ r ∈ books.recurring.rows, r.categoryId = id → r.type ≠ e
  items : ∀ e ∈ type.excludes, ∀ i ∈ books.forecastPlanItems.rows, i.categoryId = id → i.type ≠ e

end Books

/-- No row is lost, the rows of the source and no others refer to the target, which admits their
types; the keys of the database are satisfied, and forecast items still sit on masters. -/
structure Migrated (books : Books) (id : ℕ) (target : Option ℕ) (books' : Books) : Prop where
  rows : books' = books.rehomed id target
  keys : books'.CategoryKeys
  unique : books'.UniqueItems
  masters : ∀ i ∈ books'.forecastPlanItems.rows, i.SitsOnMaster books'
  types : ∀ k ∈ target, ∀ c ∈ books.categories.get? k, books.RowsAdmitted id c.type

/-- The rows of a category are those of one organisation. -/
structure OwnRows (books : Books) (org id : ℕ) : Prop where
  transactions : ∀ t ∈ books.transactions.rows, t.categoryId = id → t.orgId = org
  recurring : ∀ r ∈ books.recurring.rows, r.categoryId = id → r.orgId = org
  items : ∀ i ∈ books.forecastPlanItems.rows, i.categoryId = id → i.orgId = org

/-- The state before the delete: the rows of the source are of its organisation and not all of them
of type transfer, nothing hangs below it, it shares no plan and type with the target, the target is
a master if forecast items move, and where neither category is of both types the rows of the source
fit its own type. -/
structure Rehomable (books : Books) (org id : ℕ) (target : Option ℕ) : Prop
    extends OwnRows books org id where
  budgets : ∀ b ∈ books.budgets.rows, b.categoryId = id → b.orgId = org
  counted : (dependentBreakdown books org id).isEmpty = true →
    ∀ t ∈ books.transactions.rows, t.categoryId ≠ id
  leaf : ∀ c ∈ books.categories.rows, c.id ≠ id → c.parentId ≠ some id
  apart : ∀ i ∈ books.forecastPlanItems.rows, i.categoryId = id →
    ∀ j ∈ books.forecastPlanItems.rows, some j.categoryId = target →
      (i.planId, i.type) ≠ (j.planId, j.type)
  root : ∀ i ∈ books.forecastPlanItems.rows, i.categoryId = id →
    ∀ k ∈ target, ∀ c ∈ books.categories.get? k, c.parentId = none
  types : ∀ x ∈ books.categories.get? id, ∀ k ∈ target, ∀ c ∈ books.categories.get? k,
    x.type = .both ∨ c.type = .both ∨ books.RowsAdmitted id x.type

variable {books books' : Books} {o org id : ℕ} {target : Option ℕ} {p : DeletePlan}

/-! ### What the guards establish -/

/-- A count of zero rules out every row of the type. -/
theorem rows_of_dependentsOfType {e : EntryType} (h : dependentsOfType books org id e = (0, 0, 0)) :
    (∀ t ∈ books.transactions.rows, t.orgId = org → t.categoryId = id →
        t.type ≠ e.toTransactionType) ∧
      (∀ r ∈ books.recurring.rows, r.orgId = org → r.categoryId = id → r.type ≠ e) ∧
        ∀ i ∈ books.forecastPlanItems.rows, i.orgId = org → i.categoryId = id → i.type ≠ e := by
  obtain ⟨htransactions, hrest⟩ := Prod.mk.inj h
  obtain ⟨hrecurring, hitems⟩ := Prod.mk.inj hrest
  rw [List.length_eq_zero_iff, List.filter_eq_nil_iff] at htransactions hrecurring hitems
  refine ⟨fun t ht horg hid htype => ?_, fun r hr horg hid htype => ?_,
    fun i hi horg hid htype => ?_⟩
  · exact htransactions t (List.mem_filter.mpr ⟨ht, decide_eq_true ⟨horg, hid⟩⟩)
      (decide_eq_true htype)
  · exact hrecurring r (List.mem_filter.mpr ⟨hr, decide_eq_true ⟨horg, hid⟩⟩) (decide_eq_true htype)
  · exact hitems i (List.mem_filter.mpr ⟨hi, decide_eq_true ⟨horg, hid⟩⟩) (decide_eq_true htype)

/-- Without dependents no template and no item of the organisation uses the category. -/
theorem unused_of_isEmpty (h : (dependentBreakdown books org id).isEmpty = true) :
    (∀ r ∈ books.recurring.rows, r.orgId = org → r.categoryId ≠ id) ∧
      ∀ i ∈ books.forecastPlanItems.rows, i.orgId = org → i.categoryId ≠ id := by
  have hzero : ∀ e, dependentsOfType books org id e = (0, 0, 0) := by
    unfold DependentBreakdown.isEmpty dependentBreakdown at h
    rw [decide_eq_true_eq] at h
    intro e
    refine Prod.ext ?_ (Prod.ext ?_ ?_)
    all_goals
      cases e
      all_goals
        dsimp only at h ⊢
        omega
  refine ⟨fun r hr horg hid => ?_, fun i hi horg hid => ?_⟩
  · exact (rows_of_dependentsOfType (hzero r.type)).2.1 r hr horg hid rfl
  · exact (rows_of_dependentsOfType (hzero i.type)).2.2 i hi horg hid rfl

/-- What the guards of a delete say about source and target. -/
theorem deleteCategoryCheck_target (h : deleteCategoryCheck books org id target = .ok p) :
    p.id = id ∧ ∃ x, books.categories.get? id = some x ∧
      (((dependentBreakdown books org id).isEmpty = true ∧ p.target = none) ∨
        (dependentBreakdown books org id).isEmpty = false ∧ p.target = target ∧
          ∃ k c, target = some k ∧ k ≠ id ∧ books.categories.get? k = some c ∧
            targetCompatible x.type c.type (dependentBreakdown books org id) = true) := by
  unfold deleteCategoryCheck at h
  simp only [↓unit_bind_eq_ok, bind_eq_ok, orRaise_eq_ok, raiseIf_eq_ok] at h
  obtain ⟨x, hx, -, -, h⟩ := h
  have hget := (Db.category?_eq_some.mp hx).1
  obtain rfl : x.id = id := Category.id_of_get? hget
  split_ifs at h with hempty
  · rw [pure_eq_ok] at h
    subst h
    exact ⟨rfl, x, hget, .inl ⟨hempty, rfl⟩⟩
  · simp only [bind_eq_ok, pure_eq_ok] at h
    obtain ⟨c, hc, rfl⟩ := h
    unfold migrationTarget at hc
    simp only [↓unit_bind_eq_ok, bind_eq_ok, orRaise_eq_ok, raiseIf_eq_ok, pure_eq_ok] at hc
    obtain ⟨k, rfl, hne, c', hc', -, hcompatible, rfl⟩ := hc
    have hgetc := (Db.category?_eq_some.mp hc').1
    have hid : c'.id = k := Category.id_of_get? hgetc
    refine ⟨rfl, x, hget, .inr ⟨by simpa using hempty, by rw [hid], k, c', rfl, hne, hgetc, ?_⟩⟩
    simpa using hcompatible

/-- No transaction, template or item uses a category. -/
structure Unused (books : Books) (id : ℕ) : Prop where
  transactions : ∀ t ∈ books.transactions.rows, t.categoryId ≠ id
  recurring : ∀ r ∈ books.recurring.rows, r.categoryId ≠ id
  items : ∀ i ∈ books.forecastPlanItems.rows, i.categoryId ≠ id

theorem Rehomable.unused (h : Rehomable books org id target)
    (hempty : (dependentBreakdown books org id).isEmpty = true) : Unused books id where
  transactions := h.counted hempty
  recurring r hr hid := (unused_of_isEmpty hempty).1 r hr (h.recurring r hr hid) hid
  items i hi hid := (unused_of_isEmpty hempty).2 i hi (h.items i hi hid) hid

theorem Unused.rowsAdmitted (h : Unused books id) (type : CategoryType) :
    books.RowsAdmitted id type where
  transactions _ _ t ht hid := absurd hid (h.transactions t ht)
  recurring _ _ r hr hid := absurd hid (h.recurring r hr)
  items _ _ i hi hid := absurd hid (h.items i hi)

/-- Without rows of a type, a category that excludes that type alone admits the rows. -/
theorem OwnRows.rowsAdmitted (h : OwnRows books org id) {type : CategoryType} {e : EntryType}
    (hexcludes : type.excludes = some e) (hzero : dependentsOfType books org id e = (0, 0, 0)) :
    books.RowsAdmitted id type := by
  obtain ⟨htransactions, hrecurring, hitems⟩ := rows_of_dependentsOfType hzero
  refine ⟨fun e' he' t ht hid => ?_, fun e' he' r hr hid => ?_, fun e' he' i hi hid => ?_⟩
  all_goals
    rw [hexcludes, Option.mem_some] at he'
    subst he'
  · exact htransactions t ht (h.transactions t ht hid) hid
  · exact hrecurring r hr (h.recurring r hr hid) hid
  · exact hitems i hi (h.items i hi hid) hid

theorem rowsAdmitted_both : books.RowsAdmitted id .both where
  transactions e he := absurd he (by simp [CategoryType.excludes])
  recurring e he := absurd he (by simp [CategoryType.excludes])
  items e he := absurd he (by simp [CategoryType.excludes])

/-- A compatible target admits the rows of the source when one of the two is of both types, or the
rows fit the source. -/
theorem rowsAdmitted_iff (h : OwnRows books org id) {source type : CategoryType}
    (hcompatible : targetCompatible source type (dependentBreakdown books org id) = true) :
    books.RowsAdmitted id type ↔
      source = .both ∨ type = .both ∨ books.RowsAdmitted id source := by
  by_cases htype : type = .both
  · subst htype
    exact ⟨fun _ => .inr (.inl rfl), fun _ => rowsAdmitted_both⟩
  by_cases hsource : source = .both
  · subst hsource
    refine ⟨fun _ => .inl rfl, fun _ => ?_⟩
    -- The guard on the counts leaves no row of the type the target excludes.
    have hcounts : ∀ e, type.excludes = some e → dependentsOfType books org id e = (0, 0, 0) := by
      intro e he
      unfold targetCompatible dependentBreakdown at hcompatible
      rw [decide_eq_true_eq] at hcompatible
      refine Prod.ext ?_ (Prod.ext ?_ ?_)
      all_goals
        cases type
        all_goals
          cases e
          all_goals simp [CategoryType.excludes] at he hcompatible htype ⊢
          all_goals omega
    cases hex : type.excludes with
    | none => exact absurd hex (by cases type <;> simp [CategoryType.excludes] at htype ⊢)
    | some e => exact h.rowsAdmitted hex (hcounts e hex)
  · -- Two one-sided types are the same.
    have hsame : type = source := by
      cases source
      all_goals
        cases type
        all_goals first
          | rfl
          | exact absurd rfl hsource
          | exact absurd rfl htype
          | exact absurd hcompatible (by simp [targetCompatible])
    subst hsame
    simp [hsource]

/-! ### What the writes leave -/

theorem rehome_of_ne {k : ℕ} (h : k ≠ id) : rehome id target k = k :=
  if_neg h

theorem rehome_self (k : ℕ) : rehome id (some k) id = k :=
  if_pos rfl

/-- Where the rows of the source move, or there are none to move. -/
inductive Moves (books : Books) (id : ℕ) (target : Option ℕ) : Option ℕ → Prop
  | unused (h : Unused books id) : Moves books id target none
  | moved (k : ℕ) (hk : target = some k) (hne : k ≠ id)
      (hthere : (books.categories.get? k).isSome = true) : Moves books id target target

/-- A row after the delete refers to another category than the source. -/
theorem Moves.rehome_ne {ptarget : Option ℕ} (h : Moves books id target ptarget) {k : ℕ}
    (hk : Unused books id → k ≠ id) : rehome id target k ≠ id := by
  by_cases hid : k = id
  · cases h with
    | unused hunused => exact absurd hid (hk hunused)
    | moved k' htarget hne _ =>
      rw [hid, htarget, rehome_self]
      exact hne
  · rw [rehome_of_ne hid]
    exact hid

/-- The category a row refers to after the delete is there. -/
theorem Moves.isSome_rehome {ptarget : Option ℕ} (h : Moves books id target ptarget) {k : ℕ}
    (hk : Unused books id → k ≠ id) (hthere : (books.categories.get? k).isSome = true) :
    ((books.rehomed id target).categories.get? (rehome id target k)).isSome = true := by
  have hkept : ∀ k', k' ≠ id → (books.categories.get? k').isSome = true →
      ((books.rehomed id target).categories.get? k').isSome = true := by
    intro k' hne hsome
    obtain ⟨c, hc⟩ := Option.isSome_iff_exists.mp hsome
    have hid : c.id = k' := Category.id_of_get? hc
    rw [Books.rehomed, Table.get?_filter, hc, Option.filter_some_pos (by simp [hid, hne])]
    rfl
  refine hkept _ (h.rehome_ne hk) ?_
  by_cases hid : k = id
  · cases h with
    | unused hunused => exact absurd hid (hk hunused)
    | moved k' htarget hne hthere' =>
      rw [hid, htarget, rehome_self]
      exact hthere'
  · rw [rehome_of_ne hid]
    exact hthere

/-- The writes move the rows of the source and take it away. -/
theorem removeCategory_migrate (h : Rehomable books org id target) (hid : p.id = id)
    (hmoves : Moves books id target p.target) :
    removeCategory (p.migrate books org) org id = books.rehomed id target := by
  have hbudgets : books.budgets.filter (fun b => ¬(b.orgId = org ∧ b.categoryId = id)) =
      books.budgets.filter (·.categoryId ≠ id) := by
    refine Table.ext (List.filter_congr fun b hb => ?_) rfl
    by_cases hb' : b.categoryId = id
    · simp [hb', h.budgets b hb hb']
    · simp [hb']
  have hcategories : ∀ hf, (books.categories.filter (·.id ≠ id)).mapRows (Category.orphan id) hf =
      books.categories.filter (·.id ≠ id) := by
    refine fun hf => Table.ext ((List.map_congr_left fun c hc => ?_).trans (List.map_id _)) rfl
    obtain ⟨hmem, hne⟩ := List.mem_filter.mp hc
    exact if_neg (h.leaf c hmem (by simpa using hne))
  obtain ⟨pid, ptarget⟩ := p
  obtain rfl : pid = id := hid
  change Moves books pid target ptarget at hmoves
  cases hmoves with
  | unused hunused =>
    have htransactions : books.transactions.mapRows
        (fun t => { t with categoryId := rehome pid target t.categoryId }) (fun _ => rfl) =
        books.transactions :=
      Table.ext ((List.map_congr_left fun t ht => by
        rw [rehome_of_ne (hunused.transactions t ht)]; rfl).trans (List.map_id _)) rfl
    have hrecurring : books.recurring.mapRows
        (fun r => { r with categoryId := rehome pid target r.categoryId }) (fun _ => rfl) =
        books.recurring :=
      Table.ext ((List.map_congr_left fun r hr => by
        rw [rehome_of_ne (hunused.recurring r hr)]; rfl).trans (List.map_id _)) rfl
    have hitems : books.forecastPlanItems.mapRows
        (fun i => { i with categoryId := rehome pid target i.categoryId }) (fun _ => rfl) =
        books.forecastPlanItems :=
      Table.ext ((List.map_congr_left fun i hi => by
        rw [rehome_of_ne (hunused.items i hi)]; rfl).trans (List.map_id _)) rfl
    show removeCategory books org pid = _
    rw [removeCategory, Books.rehomed, htransactions, hrecurring, hitems, hbudgets, hcategories]
  | moved k htarget _ _ =>
    subst htarget
    have htransactions : ∀ hf, books.transactions.mapRows (fun t =>
        if t.orgId = org ∧ t.categoryId = pid then { t with categoryId := k } else t) hf =
        books.transactions.mapRows
          (fun t => { t with categoryId := rehome pid (some k) t.categoryId }) fun _ => rfl := by
      refine fun hf => Table.ext (List.map_congr_left fun t ht => ?_) rfl
      by_cases ht' : t.categoryId = pid
      · rw [if_pos ⟨h.transactions t ht ht', ht'⟩, ht', rehome_self]
      · rw [if_neg fun hc => ht' hc.2, rehome_of_ne ht']
    have hrecurring : ∀ hf, books.recurring.mapRows (fun r =>
        if r.orgId = org ∧ r.categoryId = pid then { r with categoryId := k } else r) hf =
        books.recurring.mapRows
          (fun r => { r with categoryId := rehome pid (some k) r.categoryId }) fun _ => rfl := by
      refine fun hf => Table.ext (List.map_congr_left fun r hr => ?_) rfl
      by_cases hr' : r.categoryId = pid
      · rw [if_pos ⟨h.recurring r hr hr', hr'⟩, hr', rehome_self]
      · rw [if_neg fun hc => hr' hc.2, rehome_of_ne hr']
    have hitems : ∀ hf, books.forecastPlanItems.mapRows (fun i =>
        if i.orgId = org ∧ i.categoryId = pid then { i with categoryId := k } else i) hf =
        books.forecastPlanItems.mapRows
          (fun i => { i with categoryId := rehome pid (some k) i.categoryId }) fun _ => rfl := by
      refine fun hf => Table.ext (List.map_congr_left fun i hi => ?_) rfl
      by_cases hi' : i.categoryId = pid
      · rw [if_pos ⟨h.items i hi hi', hi'⟩, hi', rehome_self]
      · rw [if_neg fun hc => hi' hc.2, rehome_of_ne hi']
    show removeCategory (migrateDependents books org pid k) org pid = _
    rw [removeCategory, migrateDependents, Books.rehomed, htransactions, hrecurring, hitems]
    dsimp only
    rw [hbudgets, hcategories]

/-! ### A delete that migrates -/

/-- Items keep their unique key when source and target share none. -/
theorem Rehomable.unique (h : Rehomable books org id target) (hunique : books.UniqueItems)
    {ptarget : Option ℕ} (hmoves : Moves books id target ptarget) :
    (books.rehomed id target).UniqueItems := by
  have hrows : (books.forecastPlanItems.rows.map fun i =>
      (i.planId, rehome id target i.categoryId, i.type)).Nodup := by
    refine (List.nodup_map_iff_inj_on (List.Nodup.of_map _ books.forecastPlanItems.nodup)).mpr ?_
    intro i hi j hj heq
    obtain ⟨hplan, hrest⟩ := Prod.mk.inj heq
    obtain ⟨hcategory, htype⟩ := Prod.mk.inj hrest
    have hsame : i.categoryId = j.categoryId → i = j := fun hc =>
      List.inj_on_of_nodup_map hunique hi hj (by rw [hplan, hc, htype])
    -- A row of the source lands on no row of the target with its plan and type.
    have hmeet : ∀ a ∈ books.forecastPlanItems.rows, ∀ b ∈ books.forecastPlanItems.rows,
        a.categoryId = id → b.categoryId ≠ id →
          rehome id target a.categoryId = rehome id target b.categoryId →
            (a.planId, a.type) ≠ (b.planId, b.type) := by
      intro a ha b hb haid hbid hab
      cases hmoves with
      | unused hunused => exact absurd haid (hunused.items a ha)
      | moved k htarget _ _ =>
        refine h.apart a ha haid b hb ?_
        rw [haid, htarget, rehome_self, rehome_of_ne hbid] at hab
        rw [htarget, hab]
    by_cases hiid : i.categoryId = id
    · by_cases hjid : j.categoryId = id
      · exact hsame (hiid.trans hjid.symm)
      · exact absurd (by rw [hplan, htype]) (hmeet i hi j hj hiid hjid hcategory)
    · by_cases hjid : j.categoryId = id
      · exact absurd (by rw [hplan, htype]) (hmeet j hj i hi hjid hiid hcategory.symm)
      · rw [rehome_of_ne hiid, rehome_of_ne hjid] at hcategory
        exact hsame hcategory
  unfold Books.UniqueItems
  change ((books.forecastPlanItems.rows.map _).map _).Nodup
  rw [List.map_map]
  exact hrows

/-- The keys to categories after the delete. -/
theorem Rehomable.keys (h : Rehomable books org id target) (hkeys : books.CategoryKeys)
    {ptarget : Option ℕ} (hmoves : Moves books id target ptarget) :
    (books.rehomed id target).CategoryKeys := by
  have hkept : ∀ k, k ≠ id → (books.categories.get? k).isSome = true →
      ((books.rehomed id target).categories.get? k).isSome = true := by
    intro k hne hthere
    have hsome := hmoves.isSome_rehome (fun _ => hne) hthere
    rw [rehome_of_ne hne] at hsome
    exact hsome
  refine
    { transactions := fun t' ht' => ?_
      recurring := fun r' hr' => ?_
      items := fun i' hi' => ?_
      budgets := fun b hb => ?_
      rules := fun r hr => ?_
      parents := fun c hc p hp => ?_ }
  · obtain ⟨t, ht, rfl⟩ := List.mem_map.mp ht'
    exact hmoves.isSome_rehome (fun hu => hu.transactions t ht) (hkeys.transactions t ht)
  · obtain ⟨r, hr, rfl⟩ := List.mem_map.mp hr'
    exact hmoves.isSome_rehome (fun hu => hu.recurring r hr) (hkeys.recurring r hr)
  · obtain ⟨i, hi, rfl⟩ := List.mem_map.mp hi'
    exact hmoves.isSome_rehome (fun hu => hu.items i hi) (hkeys.items i hi)
  · obtain ⟨hmem, hne⟩ := List.mem_filter.mp hb
    exact hkept _ (by simpa using hne) (hkeys.budgets b hmem)
  · obtain ⟨hmem, hne⟩ := List.mem_filter.mp hr
    exact hkept _ (by simpa using hne) (hkeys.rules r hmem)
  · obtain ⟨hmem, hne⟩ := List.mem_filter.mp hc
    refine hkept p (fun hpid => ?_) (hkeys.parents c hmem p hp)
    exact h.leaf c hmem (by simpa using hne) (hpid ▸ hp)

/-- Forecast items sit on masters after the delete. -/
theorem Rehomable.masters (h : Rehomable books org id target)
    (hmasters : ∀ i ∈ books.forecastPlanItems.rows, i.SitsOnMaster books)
    {ptarget : Option ℕ} (hmoves : Moves books id target ptarget) :
    ∀ i ∈ (books.rehomed id target).forecastPlanItems.rows,
    i.SitsOnMaster (books.rehomed id target) := by
  intro i' hi' c hc hid
  obtain ⟨i, hi, rfl⟩ := List.mem_map.mp hi'
  have hmem := List.mem_of_mem_filter hc
  change c.id = rehome id target i.categoryId at hid
  by_cases hiid : i.categoryId = id
  · cases hmoves with
    | unused hunused => exact absurd hiid (hunused.items i hi)
    | moved k htarget _ _ =>
      rw [hiid, htarget, rehome_self] at hid
      exact h.root i hi hiid k htarget c (hid ▸ Table.get?_of_mem hmem)
  · rw [rehome_of_ne hiid] at hid
    exact hmasters i hi c hmem hid

/-- No row refers to the source any more. -/
theorem Moves.usesCategory_rehomed {ptarget : Option ℕ} (hmoves : Moves books id target ptarget) :
    (books.rehomed id target).usesCategory id = false := by
  have hrow : ∀ {k : ℕ}, (Unused books id → k ≠ id) → rehome id target k ≠ id := fun hk =>
    hmoves.rehome_ne hk
  simp only [Books.usesCategory, Bool.or_eq_false_iff, List.any_eq_false, decide_eq_true_eq]
  refine ⟨⟨⟨⟨fun t' ht' => ?_, fun r' hr' => ?_⟩, fun i' hi' => ?_⟩, fun b hb => ?_⟩,
    fun r hr => ?_⟩
  · obtain ⟨t, ht, rfl⟩ := List.mem_map.mp ht'
    exact hrow fun hu => hu.transactions t ht
  · obtain ⟨r, hr, rfl⟩ := List.mem_map.mp hr'
    exact hrow fun hu => hu.recurring r hr
  · obtain ⟨i, hi, rfl⟩ := List.mem_map.mp hi'
    exact hrow fun hu => hu.items i hi
  · simpa using (List.mem_filter.mp hb).2
  · simpa using (List.mem_filter.mp hr).2

/-- No reference is left without its category. -/
theorem Moves.dangling_rehomed {ptarget : Option ℕ} (h : Moves books id target ptarget) {k : ℕ}
    (hk : k = id ∨ ptarget = some k) : (books.rehomed id target).dangling k = false := by
  unfold Books.dangling
  rcases hk with rfl | hk
  · rw [h.usesCategory_rehomed, Bool.and_false]
  · cases h with
    | unused hunused => exact absurd hk (by simp)
    | moved k' htarget hne hthere =>
      obtain rfl : k' = k := Option.some_inj.mp (htarget.symm.trans hk)
      have hsome := (Moves.moved k' htarget hne hthere).isSome_rehome (fun _ => hne) hthere
      rw [rehome_of_ne hne] at hsome
      rw [Option.isNone_eq_false_iff.mpr hsome, Bool.false_and]

/-- A delete that passes its guards migrates when source and target allow it. -/
theorem Rehomable.migrated (h : Rehomable books org id target) (hkeys : books.CategoryKeys)
    (hunique : books.UniqueItems)
    (hmasters : ∀ i ∈ books.forecastPlanItems.rows, i.SitsOnMaster books)
    (hguards : deleteCategoryCheck books org id target = .ok p) :
    deleteCategoryWrite books org p = .ok (books.rehomed id target) ∧
      Migrated books id target (books.rehomed id target) := by
  obtain ⟨hid, x, hx, hcase⟩ := deleteCategoryCheck_target hguards
  have hmoves : Moves books id target p.target := by
    rcases hcase with ⟨hempty, htarget⟩ | ⟨-, htarget, k, c, hk, hne, hc, -⟩
    · rw [htarget]
      exact .unused (h.unused hempty)
    · rw [htarget]
      exact .moved k hk hne (by rw [hc]; rfl)
  have hwritten := removeCategory_migrate h hid hmoves
  have huniqueItems := h.unique hunique hmoves
  have hkeys' := h.keys hkeys hmoves
  constructor
  · unfold deleteCategoryWrite
    simp only [↓unit_bind_eq_ok, raiseIf_eq_ok, pure_eq_ok]
    rw [hid, hwritten]
    refine ⟨?_, ?_, rfl⟩
    · have hitems : (p.migrate books org).forecastPlanItems =
          (books.rehomed id target).forecastPlanItems := by
        rw [← hwritten]
        rfl
      unfold Books.UniqueItems
      rw [hitems, not_not]
      exact huniqueItems
    · rintro (hsource | htarget)
      · rw [hmoves.dangling_rehomed (.inl rfl)] at hsource
        exact absurd hsource (by simp)
      · cases hk : p.target with
        | none => simp [hk] at htarget
        | some k =>
          rw [hk, Option.any_some, hmoves.dangling_rehomed (.inr hk)] at htarget
          exact absurd htarget (by simp)
  · refine ⟨rfl, hkeys', huniqueItems, h.masters hmasters hmoves, fun k hk c hc => ?_⟩
    rcases hcase with ⟨hempty, -⟩ | ⟨-, -, k', c', hk', -, hc', hcompatible⟩
    · exact (h.unused hempty).rowsAdmitted c.type
    · obtain rfl : k' = k := Option.some_inj.mp (hk'.symm.trans hk)
      obtain rfl : c' = c := Option.some_inj.mp (hc'.symm.trans hc)
      exact (rowsAdmitted_iff h.toOwnRows hcompatible).mpr (h.types x hx k' hk c' hc)

/-- The rows of other organisations do not move, and without a target none does. -/
theorem mem_migrate (books : Books) (h : o ≠ org ∨ p.target = none) :
    (∀ t ∈ books.transactions.rows, t.orgId = o → t ∈ (p.migrate books org).transactions.rows) ∧
      (∀ r ∈ books.recurring.rows, r.orgId = o → r ∈ (p.migrate books org).recurring.rows) ∧
        ∀ i ∈ books.forecastPlanItems.rows, i.orgId = o →
          i ∈ (p.migrate books org).forecastPlanItems.rows := by
  unfold DeletePlan.migrate
  cases htarget : p.target with
  | none => exact ⟨fun t ht _ => ht, fun r hr _ => hr, fun i hi _ => hi⟩
  | some k =>
    have hne : o ≠ org := h.resolve_right (by simp [htarget])
    refine ⟨fun t ht horg => ?_, fun r hr horg => ?_, fun i hi horg => ?_⟩
    · exact List.mem_map.mpr ⟨t, ht, if_neg fun hc => hne (horg.symm.trans hc.1)⟩
    · exact List.mem_map.mpr ⟨r, hr, if_neg fun hc => hne (horg.symm.trans hc.1)⟩
    · exact List.mem_map.mpr ⟨i, hi, if_neg fun hc => hne (horg.symm.trans hc.1)⟩

/-- Where the keys are satisfied after the delete, the rows of the source have moved. -/
theorem moved_of_keys (hkeys : (removeCategory (p.migrate books org) org id).CategoryKeys) :
    OwnRows books org id ∧ (∀ b ∈ books.budgets.rows, b.categoryId = id → b.orgId = org) ∧
      (p.target = none → Unused books id) := by
  have hdangles : ∀ k,
      ((removeCategory (p.migrate books org) org id).categories.get? k).isSome = true → k ≠ id := by
    intro k hk hkid
    rw [hkid, get?_removeCategory, if_pos rfl] at hk
    exact absurd hk (by simp)
  have hmoved : ∀ o, o ≠ org ∨ p.target = none →
      (∀ t ∈ books.transactions.rows, t.orgId = o → t.categoryId ≠ id) ∧
        (∀ r ∈ books.recurring.rows, r.orgId = o → r.categoryId ≠ id) ∧
          ∀ i ∈ books.forecastPlanItems.rows, i.orgId = o → i.categoryId ≠ id := by
    intro o ho
    obtain ⟨htransactions, hrecurring, hitems⟩ := mem_migrate books ho
    exact ⟨fun t ht horg => hdangles _ (hkeys.transactions t (htransactions t ht horg)),
      fun r hr horg => hdangles _ (hkeys.recurring r (hrecurring r hr horg)),
      fun i hi horg => hdangles _ (hkeys.items i (hitems i hi horg))⟩
  refine ⟨⟨fun t ht hcat => ?_, fun r hr hcat => ?_, fun i hi hcat => ?_⟩, fun b hb hcat => ?_,
    fun htarget => ⟨fun t ht => (hmoved t.orgId (.inr htarget)).1 t ht rfl,
      fun r hr => (hmoved r.orgId (.inr htarget)).2.1 r hr rfl,
      fun i hi => (hmoved i.orgId (.inr htarget)).2.2 i hi rfl⟩⟩
  · by_contra horg
    exact (hmoved t.orgId (.inl horg)).1 t ht rfl hcat
  · by_contra horg
    exact (hmoved r.orgId (.inl horg)).2.1 r hr rfl hcat
  · by_contra horg
    exact (hmoved i.orgId (.inl horg)).2.2 i hi rfl hcat
  · by_contra horg
    have hbudgets : (p.migrate books org).budgets = books.budgets := by
      unfold DeletePlan.migrate
      split <;> rfl
    have hmem : b ∈ (removeCategory (p.migrate books org) org id).budgets.rows :=
      List.mem_filter.mpr ⟨by rw [hbudgets]; exact hb, by simp [horg]⟩
    exact hdangles _ (hkeys.budgets b hmem) hcat

/-- A delete that migrated found source and target so. -/
theorem Migrated.rehomable (h : Migrated books id target books')
    (hguards : deleteCategoryCheck books org id target = .ok p)
    (hwrite : deleteCategoryWrite books org p = .ok books') : Rehomable books org id target := by
  obtain ⟨hid, x, hx, hcase⟩ := deleteCategoryCheck_target hguards
  have hremoved := deleteCategoryWrite_ok hwrite
  rw [hid] at hremoved
  obtain ⟨hown, hbudgets, hunused⟩ := moved_of_keys (hremoved ▸ h.keys)
  have hrows := h.rows
  have htargeted : ∀ i ∈ books.forecastPlanItems.rows, i.categoryId = id →
      ∃ k, target = some k ∧ k ≠ id := by
    intro i hi hcat
    rcases hcase with ⟨-, htarget⟩ | ⟨-, -, k, -, hk, hne, -⟩
    · exact absurd hcat ((hunused htarget).items i hi)
    · exact ⟨k, hk, hne⟩
  refine
    { toOwnRows := hown
      budgets := hbudgets
      counted := fun hempty t ht => ?_
      leaf := fun c hc hne hparent => ?_
      apart := fun i hi hcat j hj hjcat hkey => ?_
      root := fun i hi hcat k hk c hc => ?_
      types := fun x' hx' k hk c hc => ?_ }
  · rcases hcase with ⟨-, htarget⟩ | ⟨hnot, -⟩
    · exact (hunused htarget).transactions t ht
    · rw [hempty] at hnot
      exact absurd hnot (by simp)
  · -- The child would have been made a root.
    have hself : books.categories.get? c.id = some c := Table.get?_of_mem hc
    have hget : (books.rehomed id target).categories.get? c.id = some c := by
      rw [Books.rehomed, Table.get?_filter, hself, Option.filter_some_pos (by simpa using hne)]
    rw [← hrows, hremoved, get?_removeCategory, if_neg hne, migrate_categories, hself,
      Option.map_some, Option.some_inj, Category.orphan, if_pos hparent] at hget
    have hnone := congrArg Category.parentId hget
    rw [hparent] at hnone
    exact absurd hnone (by simp)
  · obtain ⟨k, rfl, hne⟩ := htargeted i hi hcat
    have hjk : j.categoryId = k := Option.some_inj.mp hjcat
    have hunique := h.unique
    rw [hrows] at hunique
    obtain ⟨hplan, htype⟩ := Prod.mk.inj hkey
    have hsame := List.inj_on_of_nodup_map hunique (List.mem_map_of_mem hi) (List.mem_map_of_mem hj)
      (by
        show (i.planId, rehome id (some k) i.categoryId, i.type) =
          (j.planId, rehome id (some k) j.categoryId, j.type)
        rw [hplan, htype, hcat, hjk, rehome_self, rehome_of_ne hne])
    obtain ⟨hids, -⟩ := ForecastPlanItem.mk.inj hsame
    have hij := Table.get?_inj (Table.get?_of_mem hi) (Table.get?_of_mem hj) hids
    rw [← hij, hcat] at hjk
    exact hne hjk.symm
  · obtain ⟨k', hk', hne⟩ := htargeted i hi hcat
    obtain rfl : k' = k := Option.some_inj.mp (hk'.symm.trans hk)
    have hcid : c.id = k' := Category.id_of_get? hc
    refine h.masters { i with categoryId := k' } ?_ c ?_ hcid
    · rw [hrows]
      refine List.mem_map.mpr ⟨i, hi, ?_⟩
      rw [hk', hcat, rehome_self]
    · rw [hrows]
      exact List.mem_filter.mpr ⟨Table.get?_mem hc, by simpa [hcid] using hne⟩
  · obtain rfl : x = x' := Option.some_inj.mp (hx.symm.trans hx')
    rcases hcase with ⟨-, htarget⟩ | ⟨-, -, k', c', hk', -, hc', hcompatible⟩
    · exact .inr (.inr ((hunused htarget).rowsAdmitted x.type))
    · obtain rfl : k' = k := Option.some_inj.mp (hk'.symm.trans hk)
      obtain rfl : c' = c := Option.some_inj.mp (hc'.symm.trans hc)
      exact (rowsAdmitted_iff hown hcompatible).mp (h.types k' hk c' hc)

/-- Three masters, the first with a subcategory; the second and the third have items in one plan. -/
def samplePlanned : Books where
  accountTypes := .empty
  accounts := .empty
  categories := (((Table.empty.insert { orgId := 1, name := "Home" }).insert
    { orgId := 1, name := "Food" }).insert { orgId := 1, name := "Pets" }).insert
    { orgId := 1, parentId := some 1, name := "Rent" }
  transactions := Table.empty.insert
    { orgId := 1, accountId := 1, categoryId := 2, description := "Bread", amount := 300
      type := .expense, date := sampleRentDay, settledDate := some sampleRentDay }
  recurring := .empty
  importBatches := .empty
  categoryRules := Table.empty.insert { orgId := 1, categoryId := 2 }
  budgets := .empty
  forecastPlans := Table.empty.insert { orgId := 1, billingPeriodId := 1 }
  forecastPlanItems := (Table.empty.insert
    { planId := 1, orgId := 1, categoryId := 2, type := .expense, plannedAmount := 900 }).insert
    { planId := 1, orgId := 1, categoryId := 3, type := .expense, plannedAmount := 200 }

theorem samplePlanned_categoryKeys : samplePlanned.CategoryKeys where
  transactions := by decide +kernel
  recurring := by decide +kernel
  items := by decide +kernel
  budgets := by decide +kernel
  rules := by decide +kernel
  parents := by decide +kernel

end Pfv
