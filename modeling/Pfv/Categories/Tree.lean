import Pfv.Services.Categories
import Pfv.Base.Run

/-!
# The category tree

Categories form a tree of two levels within each organisation, and a subcategory has the type of its
master. Creating, updating, moving and deleting categories keep it so. Restoring the recommended
categories inserts a missing subcategory with the recommended type of its master, whatever type the
master has by then.

## Main definitions

* `CategoryRequest`, `CategoryRequest.step`: the operations on categories.
* `TreeOk cats org`: every subcategory of an organisation has a master of its type there.
* `CategoryRequest.KeepsTree`: a restore adds subcategories only to masters that have their
  recommended type.

## Main results

* `CategoryRequest.step_treeOk`: the tree after a request other than a restore.
* `tree_of_run`: the tree after every run in which restores keep to the condition.
-/

namespace Pfv

/-! ### Requests -/

inductive CategoryRequest
  | create (org : ℕ) (body : CategoryCreate)
  | update (org id : ℕ) (body : CategoryUpdate)
  | move (org subcategoryId targetParentId : ℕ)
  | batchMove (org : ℕ) (moves : List BatchMoveItem)
  | delete (org id : ℕ) (target : Option ℕ)
  | restore (org : ℕ)

/-- Serve a request. -/
def CategoryRequest.step [Casing] (books : Books) : CategoryRequest → Except ServiceError Books
  | .create org body => createCategory books org body
  | .update org id body => updateCategory books org id body
  | .move org sub target => moveSubcategory books org sub target
  | .batchMove org moves => batchMoveSubcategories books org moves
  | .delete org id target => deleteCategoryWithMigration books org id target
  | .restore org =>
      .ok { books with categories := (restoreRecommendedCategories books.categories org).1 }

/-! ### The tree -/

/-- Every subcategory of an organisation has a master of the organisation, of its own type, above
it. -/
def TreeOk (cats : Table Category) (org : ℕ) : Prop :=
  ∀ i c, cats.get? i = some c → c.orgId = org → ∀ p, c.parentId = some p →
    ∃ m, cats.get? p = some m ∧ m.parentId = none ∧ m.orgId = org ∧ m.type = c.type

/-- A category of an organisation may hang below the parent it names, if any. -/
def FitsTree (cats : Table Category) (org : ℕ) (c : Category) : Prop :=
  ∀ p, c.parentId = some p →
    ∃ m, cats.get? p = some m ∧ m.parentId = none ∧ m.orgId = org ∧ m.type = c.type

theorem Db.category?_eq_some {db : Db} {id org : ℕ} {c : Category} :
    db.category? id org = some c ↔ db.categories.get? id = some c ∧ c.orgId = org := by
  simp [Db.category?, Option.filter_eq_some_iff]

theorem Category.id_of_get? {cats : Table Category} {i : ℕ} {c : Category}
    (h : cats.get? i = some c) : c.id = i :=
  Table.get?_id h

theorem mem_childrenOf {books : Books} {org id : ℕ} {c : Category} :
    c ∈ childrenOf books org id ↔
      books.categories.get? c.id = some c ∧ c.parentId = some id ∧ c.orgId = org := by
  simp [childrenOf, Table.mem_rows_iff, Row.id]

section

variable {cats : Table Category} {books books' : Books} {org : ℕ}

/-- A master is no subcategory's child: nothing hangs below a subcategory. -/
theorem TreeOk.no_children (h : TreeOk cats org) {x : Category} (hx : cats.get? x.id = some x)
    (hsub : x.parentId ≠ none) {i : ℕ} {c : Category} (hc : cats.get? i = some c)
    (horg : c.orgId = org) : c.parentId ≠ some x.id := by
  intro hp
  obtain ⟨m, hm, hmaster, -⟩ := h i c hc horg _ hp
  rw [hx, Option.some_inj] at hm
  exact hsub (hm ▸ hmaster)

/-- Storing a category that fits keeps the tree. -/
theorem TreeOk.insert (h : TreeOk cats org) {c : Category}
    (hfits : c.orgId = org → FitsTree cats org c) : TreeOk (cats.insert c) org := by
  intro i d hd horg p hp
  have hfound : ∃ m, cats.get? p = some m ∧ m.parentId = none ∧ m.orgId = org ∧
      m.type = d.type := by
    rw [Table.get?_insert] at hd
    split_ifs at hd
    · rw [← Option.some_inj.mp hd] at horg hp ⊢
      exact hfits horg p hp
    · exact h i d hd horg p hp
  obtain ⟨m, hm, hrest⟩ := hfound
  exact ⟨m, Table.get?_insert_of_some c hm, hrest⟩

/-! ### What the requests do -/

theorem createCategory_ok {body : CategoryCreate} (h : createCategory books org body = .ok books') :
    ∃ c : Category, c.orgId = org ∧ c.slug = none ∧ FitsTree books.categories org c ∧
      books' = { books with categories := books.categories.insert c } := by
  unfold createCategory at h
  simp only [↓unit_bind_eq_ok, bind_eq_ok, pure_eq_ok] at h
  obtain ⟨type, htype, -, rfl⟩ := h
  refine ⟨_, rfl, rfl, fun p hp => ?_, rfl⟩
  have hp : body.parentId = some p := hp
  simp only [effectiveType, hp, bind_eq_ok, ↓unit_bind_eq_ok, orRaise_eq_ok, raiseIf_eq_ok,
    pure_eq_ok] at htype
  obtain ⟨m, hm, hmaster, rfl⟩ := htype
  obtain ⟨hget, horg⟩ := Db.category?_eq_some.mp hm
  exact ⟨m, hget, by simpa using hmaster, horg, rfl⟩

/-- What the checks of an update establish: a subcategory keeps its type or takes its parent's, and
a new type passed its two guards and is carried to the subcategories of a master. -/
structure UpdateChecked (books : Books) (org : ℕ) (cat : Category) (p : UpdatePlan) : Prop where
  found : books.category? cat.id org = some cat
  id : p.id = cat.id
  same : p.newType = none → p.childIds = []
  guards : ∀ t, p.newType = some t → t ≠ cat.type ∧
    validateCategoryTypeChange books cat t = .ok () ∧
    assertMinFloorAfterTypeChange books org cat t = .ok () ∧
    p.childIds = (typeChangeTargets books cat).tail
  parent : ∀ t q, p.newType = some t → cat.parentId = some q →
    ∃ m, books.category? q org = some m ∧ m.type = t

theorem updateCategoryCheck_ok {id : ℕ} {body : CategoryUpdate} {p : UpdatePlan}
    (h : updateCategoryCheck books org id body = .ok p) :
    ∃ cat, books.category? id org = some cat ∧ UpdateChecked books org cat p := by
  unfold updateCategoryCheck at h
  simp only [↓unit_bind_eq_ok, bind_eq_ok, orRaise_eq_ok] at h
  obtain ⟨cat, hcat, hparent, h⟩ := h
  have hid : cat.id = id := Category.id_of_get? (Db.category?_eq_some.mp hcat).1
  have hfound : books.category? cat.id org = some cat := hid ▸ hcat
  refine ⟨cat, hcat, ?_⟩
  split at h
  · rw [pure_eq_ok] at h
    subst h
    exact ⟨hfound, rfl, fun _ => rfl, by simp, by simp⟩
  · next t ht =>
    obtain ⟨hbody, hne⟩ := Option.filter_eq_some_iff.mp ht
    have hne : t ≠ cat.type := by simpa using hne
    simp only [↓unit_bind_eq_ok, pure_eq_ok] at h
    obtain ⟨hvalid, hfloor, rfl⟩ := h
    refine ⟨hfound, rfl, by simp, fun t' ht' => ?_, fun t' q ht' hq => ?_⟩
    · rw [← Option.some_inj.mp ht']
      exact ⟨hne, hvalid, hfloor, rfl⟩
    · rw [← Option.some_inj.mp ht']
      simp only [checkSubcategoryType, hq, raiseIf_eq_ok, hbody, Option.any_some, decide_eq_true_eq,
        not_and, not_not]
        at hparent
      exact Option.map_eq_some_iff.mp (hparent hne)

theorem updateCategoryWrite_ok {p : UpdatePlan}
    (h : updateCategoryWrite books p = .ok books') :
    ∃ hf, books' = { books with categories := books.categories.mapRows p.apply hf } := by
  unfold updateCategoryWrite at h
  simp only [↓unit_bind_eq_ok, pure_eq_ok] at h
  obtain ⟨-, -, rfl⟩ := h
  exact ⟨_, rfl⟩

/-- What the checks of a move establish: a subcategory and another master, of one type. -/
structure Movable (cats : Table Category) (org sub target : ℕ) : Prop where
  exists_rows : ∃ s t, cats.get? sub = some s ∧ s.orgId = org ∧ s.parentId ≠ none ∧
    cats.get? target = some t ∧ t.orgId = org ∧ t.parentId = none ∧ s.type = t.type

theorem resolveForMove_ok [Casing] {subcategoryId targetParentId : ℕ} {sub target : Category}
    (h : resolveForMove books org subcategoryId targetParentId = .ok (sub, target)) :
    Movable books.categories org sub.id target.id := by
  unfold resolveForMove at h
  simp only [↓unit_bind_eq_ok, bind_eq_ok, orRaise_eq_ok, raiseIf_eq_ok, pure_eq_ok,
    Prod.mk.injEq, not_not] at h
  obtain ⟨s, hs, hsub, t, ht, hmaster, -, htype, -, -, -, rfl, rfl⟩ := h
  obtain ⟨hs, hsorg⟩ := Db.category?_eq_some.mp hs
  obtain ⟨ht, htorg⟩ := Db.category?_eq_some.mp ht
  exact ⟨s, t, by rw [Category.id_of_get? hs, hs], hsorg, hsub,
    by rw [Category.id_of_get? ht, ht], htorg, hmaster, htype⟩

theorem moveSubcategory_ok [Casing] {subcategoryId targetParentId : ℕ}
    (h : moveSubcategory books org subcategoryId targetParentId = .ok books') :
    ∃ s t, Movable books.categories org s t ∧ books' = setParent books org s t := by
  unfold moveSubcategory at h
  simp only [bind_eq_ok, Prod.exists, pure_eq_ok] at h
  obtain ⟨sub, target, hmove, rfl⟩ := h
  exact ⟨sub.id, target.id, resolveForMove_ok hmove, rfl⟩

theorem resolveMoves_ok [Casing] {moves : List BatchMoveItem} {seen : List (ℕ × String × ℕ)}
    {resolved : List (ℕ × ℕ)} (h : resolveMoves books org moves seen = .ok resolved) :
    ∀ m ∈ resolved, Movable books.categories org m.1 m.2 := by
  induction moves generalizing seen resolved with
  | nil =>
    rw [resolveMoves, pure_eq_ok] at h
    simp [← h]
  | cons move moves ih =>
    unfold resolveMoves at h
    simp only [↓unit_bind_eq_ok, bind_eq_ok, Prod.exists, pure_eq_ok] at h
    obtain ⟨sub, target, hmove, -, rest, hrest, rfl⟩ := h
    intro m hm
    rcases List.mem_cons.mp hm with rfl | hm
    · exact resolveForMove_ok hmove
    · exact ih hrest m hm

theorem batchMoveSubcategories_ok [Casing] {moves : List BatchMoveItem}
    (h : batchMoveSubcategories books org moves = .ok books') :
    ∃ resolved : List (ℕ × ℕ), (∀ m ∈ resolved, Movable books.categories org m.1 m.2) ∧
      books' = resolved.foldl (fun b m => setParent b org m.1 m.2) books := by
  unfold batchMoveSubcategories at h
  simp only [↓unit_bind_eq_ok, bind_eq_ok, pure_eq_ok] at h
  obtain ⟨-, resolved, hmoves, rfl⟩ := h
  exact ⟨resolved, resolveMoves_ok hmoves, rfl⟩

/-- What the checks of a delete establish: a master has no subcategories, and the floor guard
passed. -/
structure DeleteChecked (books : Books) (org : ℕ) (cat : Category) (p : DeletePlan) : Prop where
  found : books.category? cat.id org = some cat
  id : p.id = cat.id
  childless : cat.parentId = none → childrenOf books org cat.id = []
  floor : assertMinFloorAfterDelete books org cat = .ok ()

theorem deleteCategoryCheck_ok {id : ℕ} {target : Option ℕ} {p : DeletePlan}
    (h : deleteCategoryCheck books org id target = .ok p) :
    ∃ cat, books.category? id org = some cat ∧ DeleteChecked books org cat p := by
  unfold deleteCategoryCheck at h
  simp only [↓unit_bind_eq_ok, bind_eq_ok, orRaise_eq_ok, raiseIf_eq_ok] at h
  obtain ⟨cat, hcat, hchildren, hfloor, h⟩ := h
  have hid : cat.id = id := Category.id_of_get? (Db.category?_eq_some.mp hcat).1
  have hchecked : ∀ t, DeleteChecked books org cat ⟨cat.id, t⟩ := fun t =>
    ⟨hid ▸ hcat, rfl, fun hmaster => by_contra fun hne => hchildren ⟨hmaster, hne⟩, hfloor⟩
  refine ⟨cat, hcat, ?_⟩
  split_ifs at h
  · rw [pure_eq_ok] at h
    exact h ▸ hchecked none
  · simp only [bind_eq_ok, pure_eq_ok] at h
    obtain ⟨t, -, rfl⟩ := h
    exact hchecked (some t.id)

theorem migrate_categories (p : DeletePlan) (books : Books) (org : ℕ) :
    (p.migrate books org).categories = books.categories := by
  unfold DeletePlan.migrate
  split <;> rfl

theorem deleteCategoryWrite_ok {p : DeletePlan} (h : deleteCategoryWrite books org p = .ok books') :
    books' = removeCategory (p.migrate books org) org p.id := by
  unfold deleteCategoryWrite at h
  simp only [↓unit_bind_eq_ok, pure_eq_ok] at h
  exact h.2.2.symm

/-! ### What the writes leave -/

theorem get?_removeCategory (books : Books) (org x i : ℕ) :
    (removeCategory books org x).categories.get? i =
      if i = x then none else (books.categories.get? i).map (Category.orphan x) := by
  rw [removeCategory, Table.get?_mapRows, Table.get?_filter]
  cases hc : books.categories.get? i with
  | none => simp
  | some c =>
    have hid : c.id = i := Category.id_of_get? hc
    split_ifs with hi
    · simp [Option.filter, hid, hi]
    · simp [Option.filter, hid, hi]

theorem get?_setParent (books : Books) (org x q i : ℕ) :
    (setParent books org x q).categories.get? i =
      if i = x then
        (books.categories.get? i).map fun c =>
          if c.orgId = org then { c with parentId := some q } else c
      else books.categories.get? i := by
  rw [setParent, Table.get?_modify]

/-! ### The tree after each request -/

/-- A change of names and types that follows each master keeps the tree. -/
theorem TreeOk.mapRows (h : TreeOk cats org) {f : Category → Category} {hf}
    (hparent : ∀ c, (f c).parentId = c.parentId) (horg : ∀ c, (f c).orgId = c.orgId)
    (htype : ∀ c m, cats.get? c.id = some c → cats.get? m.id = some m → c.orgId = org →
      m.orgId = org → c.parentId = some m.id → m.parentId = none → m.type = c.type →
      (f m).type = (f c).type) : TreeOk (cats.mapRows f hf) org := by
  intro i d hd hdorg p hp
  rw [Table.get?_mapRows, Option.map_eq_some_iff] at hd
  obtain ⟨c, hc, rfl⟩ := hd
  rw [horg] at hdorg
  rw [hparent] at hp
  obtain ⟨m, hm, hmaster, hmorg, hmtype⟩ := h i c hc hdorg p hp
  have hpm : p = m.id := (Category.id_of_get? hm).symm
  refine ⟨f m, by rw [Table.get?_mapRows, hm, Option.map_some], by rw [hparent, hmaster],
    by rw [horg, hmorg], htype c m (Table.get?_self hc) (Table.get?_self hm) hdorg hmorg
      (hp.trans (congrArg some hpm)) hmaster hmtype⟩

theorem UpdatePlan.apply_parentId (p : UpdatePlan) (c : Category) :
    (p.apply c).parentId = c.parentId := by
  unfold UpdatePlan.apply
  split_ifs <;> rfl

theorem UpdatePlan.apply_orgId (p : UpdatePlan) (c : Category) :
    (p.apply c).orgId = c.orgId := by
  unfold UpdatePlan.apply
  split_ifs <;> rfl

theorem UpdatePlan.apply_type (p : UpdatePlan) (c : Category) :
    (p.apply c).type = if c.id = p.id ∨ c.id ∈ p.childIds then p.newType.getD c.type
      else c.type := by
  unfold UpdatePlan.apply
  split_ifs <;> simp_all

/-- The subcategories a checked type change is carried to are those of the category. -/
theorem UpdateChecked.mem_childIds {cat : Category} {p : UpdatePlan}
    (h : UpdateChecked books org cat p) {t : CategoryType} (ht : p.newType = some t) {i : ℕ} :
    i ∈ p.childIds ↔ cat.parentId = none ∧ ∃ c ∈ childrenOf books org cat.id, c.id = i := by
  have horg := (Db.category?_eq_some.mp h.found).2
  rw [(h.guards t ht).2.2.2, typeChangeTargets, List.tail_cons, horg]
  split_ifs with hmaster <;> simp [hmaster]

/-- A checked update keeps the tree: a master takes its subcategories along, and a subcategory of a
tree in order keeps its type. -/
theorem UpdateChecked.treeOk {o : ℕ} {cat : Category} {p : UpdatePlan}
    (hp : UpdateChecked books org cat p) (h : TreeOk books.categories o) (hf) :
    TreeOk (books.categories.mapRows p.apply hf) o := by
  refine h.mapRows p.apply_parentId p.apply_orgId fun c m hc hm hco hmo hpar hmaster htype => ?_
  rw [p.apply_type, p.apply_type]
  cases hnew : p.newType with
  | none => simpa using htype
  | some t =>
    obtain ⟨hget, hcatorg⟩ := Db.category?_eq_some.mp hp.found
    have hmc : m.id = p.id → m = cat := fun hid => by
      rw [hid, hp.id, hget, Option.some_inj] at hm
      exact hm.symm
    -- A subcategory is written exactly when its master is.
    have hwritten : (c.id = p.id ∨ c.id ∈ p.childIds) ↔ (m.id = p.id ∨ m.id ∈ p.childIds) := by
      rw [hp.mem_childIds hnew, hp.mem_childIds hnew]
      constructor
      · rintro (hid | ⟨hroot, d, hd, hid⟩)
        · -- The type of a subcategory cannot change in a tree in order.
          rw [hid, hp.id, hget, Option.some_inj] at hc
          obtain ⟨m', hm', ht⟩ := hp.parent t m.id hnew (hc ▸ hpar)
          rw [(Db.category?_eq_some.mp hm').1, Option.some_inj] at hm
          exact absurd (ht.symm.trans ((congrArg Category.type hm).trans (htype.trans
            (congrArg Category.type hc.symm)))) (hp.guards t hnew).1
        · obtain ⟨hdget, hdpar, -⟩ := mem_childrenOf.mp hd
          rw [hid, hc, Option.some_inj] at hdget
          rw [← hdget, hpar, Option.some_inj] at hdpar
          exact .inl (hdpar.trans hp.id.symm)
      · rintro (hid | ⟨hroot, d, hd, hid⟩)
        · have hmcat := hmc hid
          refine .inr ⟨hmcat ▸ hmaster, c, mem_childrenOf.mpr ⟨hc, ?_, ?_⟩, rfl⟩
          · rw [hpar, hmcat]
          · rw [hco, ← hmo, hmcat, hcatorg]
        · obtain ⟨hdget, hdpar, -⟩ := mem_childrenOf.mp hd
          rw [hid, hm, Option.some_inj] at hdget
          rw [← hdget, hmaster] at hdpar
          exact absurd hdpar (by simp)
    simp only [hwritten, Option.getD_some]
    split_ifs
    · rfl
    · exact htype

/-- Moving a subcategory below a master of its type keeps the tree. -/
theorem Movable.treeOk {o s t : ℕ} (hmove : Movable books.categories org s t)
    (h : TreeOk books.categories o) : TreeOk (setParent books org s t).categories o := by
  obtain ⟨sub, target, hsub, hsorg, hspar, htarget, htorg, htmaster, htype⟩ := hmove.exists_rows
  -- Masters are left as they are.
  have hmasters : ∀ q m, books.categories.get? q = some m → m.parentId = none →
      (setParent books org s t).categories.get? q = some m := by
    intro q m hm hmaster
    have hqs : q ≠ s := by
      rintro rfl
      rw [hsub, Option.some_inj] at hm
      exact hspar (hm ▸ hmaster)
    rw [get?_setParent, if_neg hqs, hm]
  intro i d hd hdorg p hp
  rw [get?_setParent] at hd
  split_ifs at hd with hi
  · rw [hi, hsub, Option.map_some, if_pos hsorg, Option.some_inj] at hd
    subst hd
    rw [← Option.some_inj.mp hp]
    exact ⟨target, hmasters t target htarget htmaster, htmaster,
      htorg.trans (hsorg.symm.trans hdorg), htype.symm⟩
  · obtain ⟨m, hm, hmaster, hrest⟩ := h i d hd hdorg p hp
    exact ⟨m, hmasters p m hm hmaster, hmaster, hrest⟩

theorem Movable.after_move {s t s' t' : ℕ} (hmove : Movable books.categories org s t)
    (h : Movable books.categories org s' t') :
    Movable (setParent books org s t).categories org s' t' := by
  obtain ⟨sub, -, hsub, -, hspar, -⟩ := hmove.exists_rows
  obtain ⟨sub', target', hsub', hsorg', hspar', htarget', htorg', htmaster', htype'⟩ :=
    h.exists_rows
  have hts : t' ≠ s := by
    rintro rfl
    rw [hsub, Option.some_inj] at htarget'
    exact hspar (htarget' ▸ htmaster')
  have ht : (setParent books org s t).categories.get? t' = some target' := by
    rw [get?_setParent, if_neg hts, htarget']
  by_cases hss : s' = s
  · refine ⟨{ sub' with parentId := some t }, target', ?_, hsorg', by simp, ht, htorg', htmaster',
      htype'⟩
    rw [get?_setParent, if_pos hss, hsub', Option.map_some, if_pos hsorg']
  · refine ⟨sub', target', ?_, hsorg', hspar', ht, htorg', htmaster', htype'⟩
    rw [get?_setParent, if_neg hss, hsub']

/-- What each allowed move keeps, the moves of a batch keep: a move keeps the others allowed. -/
theorem foldl_setParent_invariant {I : Books → Prop}
    (hstep : ∀ b s t, I b → Movable b.categories org s t → I (setParent b org s t)) :
    ∀ (l : List (ℕ × ℕ)) (b : Books), I b → (∀ m ∈ l, Movable b.categories org m.1 m.2) →
      I (l.foldl (fun b m => setParent b org m.1 m.2) b)
  | [], _, hb, _ => hb
  | m :: l, b, hb, hl => by
      have hm := hl m List.mem_cons_self
      exact foldl_setParent_invariant hstep l _ (hstep b m.1 m.2 hb hm) fun m' hm' =>
        hm.after_move (hl m' (List.mem_cons_of_mem m hm'))

/-- Deleting a category without subcategories keeps the tree. -/
theorem TreeOk.remove {o x : ℕ} (h : TreeOk books.categories o)
    (hx : ∀ i c, books.categories.get? i = some c → c.orgId = o → c.parentId ≠ some x) :
    TreeOk (removeCategory books org x).categories o := by
  intro i d hd hdorg p hp
  rw [get?_removeCategory] at hd
  split_ifs at hd
  obtain ⟨c, hc, rfl⟩ := Option.map_eq_some_iff.mp hd
  have hcd : c.parentId = some p ∧ c.orgId = o ∧ (c.orphan x).type = c.type := by
    unfold Category.orphan at hdorg hp ⊢
    split_ifs at hdorg hp ⊢
    exact ⟨hp, hdorg, rfl⟩
  obtain ⟨m, hm, hmaster, hmorg, hmtype⟩ := h i c hc hcd.2.1 p hcd.1
  have hpx : p ≠ x := fun hpx => hx i c hc hcd.2.1 (hpx ▸ hcd.1)
  refine ⟨m, ?_, hmaster, hmorg, hmtype.trans hcd.2.2.symm⟩
  rw [get?_removeCategory, if_neg hpx, hm, Option.map_some, Category.orphan,
    if_neg (by simp [hmaster])]

/-- A checked delete leaves no subcategory behind. -/
theorem DeleteChecked.no_children {o : ℕ} {cat : Category} {p : DeletePlan}
    (hp : DeleteChecked books org cat p) (h : TreeOk books.categories o) {i : ℕ} {c : Category}
    (hc : books.categories.get? i = some c) (hco : c.orgId = o) : c.parentId ≠ some p.id := by
  rw [hp.id]
  obtain ⟨hget, hcatorg⟩ := Db.category?_eq_some.mp hp.found
  by_cases hmaster : cat.parentId = none
  · intro hpar
    obtain ⟨m, hm, -, hmorg, -⟩ := h i c hc hco _ hpar
    rw [hget, Option.some_inj] at hm
    have hchild : c ∈ childrenOf books org cat.id :=
      mem_childrenOf.mpr ⟨Table.get?_self hc, hpar, by rw [hco, ← hmorg, ← hm, hcatorg]⟩
    rw [hp.childless hmaster] at hchild
    exact absurd hchild (by simp)
  · exact h.no_children hget hmaster hc hco

/-- The requests other than a restore keep the tree of every organisation. -/
theorem CategoryRequest.step_treeOk [Casing] {r : CategoryRequest} {o : ℕ}
    (h : TreeOk books.categories o) (hr : ∀ org, r ≠ .restore org)
    (hstep : r.step books = .ok books') :
    TreeOk books'.categories o := by
  cases r with
  | create org body =>
    obtain ⟨c, horg, -, hfits, rfl⟩ := createCategory_ok hstep
    exact h.insert fun ho => by rwa [← ho, horg]
  | update org id body =>
    obtain ⟨p, hcheck, hwrite⟩ := bind_eq_ok.mp hstep
    obtain ⟨cat, -, hchecked⟩ := updateCategoryCheck_ok hcheck
    obtain ⟨hf, rfl⟩ := updateCategoryWrite_ok hwrite
    exact hchecked.treeOk h hf
  | move org sub target =>
    obtain ⟨s, t, hmove, rfl⟩ := moveSubcategory_ok hstep
    exact hmove.treeOk h
  | batchMove org moves =>
    obtain ⟨resolved, hmoves, rfl⟩ := batchMoveSubcategories_ok hstep
    exact foldl_setParent_invariant (I := fun b => TreeOk b.categories o)
      (fun b s t hb hmove => hmove.treeOk hb) resolved books h hmoves
  | delete org id target =>
    obtain ⟨p, hcheck, hwrite⟩ := bind_eq_ok.mp hstep
    obtain ⟨cat, -, hchecked⟩ := deleteCategoryCheck_ok hcheck
    rw [deleteCategoryWrite_ok hwrite]
    rw [← migrate_categories p books org] at h
    refine h.remove fun i c hc hco => ?_
    rw [migrate_categories] at hc h
    exact hchecked.no_children h hc hco
  | restore org => exact absurd rfl (hr org)

/-! ### Restoring the recommended categories -/

/-- The system categories under the slug of a recommended master are masters. -/
def MastersAreRoots (cats : Table Category) : Prop :=
  ∀ i c, cats.get? i = some c → c.isSystem = true →
    (∃ m ∈ systemCategories, c.slug = some m.slug) → c.parentId = none

/-- No recommended subcategory has the slug of a recommended master. -/
theorem childSlug_ne {m m' : MasterDef} (hm : m ∈ systemCategories) {child : ChildDef}
    (hchild : child ∈ m.children) (hm' : m' ∈ systemCategories) : child.slug ≠ m'.slug := by
  have hall : ∀ m ∈ systemCategories, ∀ child ∈ m.children, ∀ m' ∈ systemCategories,
      child.slug ≠ m'.slug := by
    decide +kernel
  exact hall m hm child hchild m' hm'

/-- A restore adds subcategories only below masters that have their recommended type. -/
def RestoresInPlace (cats : Table Category) (org : ℕ) : Prop :=
  ∀ m ∈ systemCategories, ∀ master ∈ systemCategory? cats org m.slug,
    (∃ child ∈ m.children, some child.slug ∉ systemSlugs cats org) → master.type = m.type

instance (cats : Table Category) (org : ℕ) : Decidable (RestoresInPlace cats org) :=
  inferInstanceAs (Decidable (∀ m ∈ systemCategories, ∀ master ∈ systemCategory? cats org m.slug,
    (∃ child ∈ m.children, some child.slug ∉ systemSlugs cats org) → master.type = m.type))

/-- What a restore keeps while it stores rows: the trees, the masters, and the rows it started
with. -/
structure Restoring (start cats : Table Category) : Prop where
  tree : ∀ o, TreeOk cats o
  roots : MastersAreRoots cats
  rows : ∃ extra, cats.rows = start.rows ++ extra

theorem MastersAreRoots.insert (h : MastersAreRoots cats) {c : Category}
    (hc : c.isSystem = true → (∃ m ∈ systemCategories, c.slug = some m.slug) → c.parentId = none) :
    MastersAreRoots (cats.insert c) := by
  intro i d hd hsys hslug
  rw [Table.get?_insert] at hd
  split_ifs at hd
  · rw [← Option.some_inj.mp hd] at hsys hslug ⊢
    exact hc hsys hslug
  · exact h i d hd hsys hslug

theorem Restoring.insert {start : Table Category} (h : Restoring start cats) {c : Category}
    (hfits : FitsTree cats c.orgId c)
    (hroot : c.isSystem = true → (∃ m ∈ systemCategories, c.slug = some m.slug) →
      c.parentId = none) : Restoring start (cats.insert c) where
  tree o := (h.tree o).insert fun ho => ho ▸ hfits
  roots := h.roots.insert hroot
  rows := by
    obtain ⟨extra, hrows⟩ := h.rows
    exact ⟨extra ++ [{ c with id := cats.next }], by
      rw [← List.append_assoc, ← hrows]
      rfl⟩

/-- What storing each missing row keeps, storing the missing rows of a list keeps. -/
theorem foldl_insertMissing_invariant {existing : List (Option String)}
    {I : Table Category → Prop} :
    ∀ (l : List Category) (s : Table Category × ℕ),
      (∀ t, ∀ c ∈ l, c.slug ∉ existing → I t → I (t.insert c)) → I s.1 →
      I (l.foldl (insertMissing existing) s).1
  | [], _, _, hs => hs
  | c :: l, s, hstep, hs => by
      refine foldl_insertMissing_invariant l _
        (fun t d hd => hstep t d (List.mem_cons_of_mem c hd)) ?_
      unfold insertMissing
      split_ifs with hc
      · exact hs
      · exact hstep s.1 c List.mem_cons_self hc hs

/-- A slug that is present belongs to a system category of the organisation. -/
theorem exists_systemCategory {slug : String} (h : some slug ∈ systemSlugs cats org) :
    ∃ c, systemCategory? cats org slug = some c := by
  obtain ⟨c, hc, hslug⟩ := List.mem_map.mp h
  obtain ⟨hc, horg⟩ := List.mem_filter.mp hc
  rw [← Option.isSome_iff_exists, systemCategory?, List.find?_isSome]
  simp only [decide_eq_true_eq] at horg
  exact ⟨c, hc, by simp [horg.1, horg.2, hslug]⟩

/-- Storing a recommended master and its subcategories keeps the trees. -/
theorem Restoring.insertMaster {start : Table Category} {s : Table Category × ℕ} {m : MasterDef}
    (hm : m ∈ systemCategories) (hplace : RestoresInPlace start org)
    (h : Restoring start s.1) :
    Restoring start (insertMaster org (systemSlugs start org) s m).1 := by
  -- The master the subcategories hang below, and the table once it is stored.
  obtain ⟨q, master, hq, hmaster, htype, hs⟩ : ∃ q master,
      (if some m.slug ∈ systemSlugs start org then (systemCategory? s.1 org m.slug).map (·.id)
        else some s.1.next) = some q ∧
      (master.parentId = none ∧ master.orgId = org) ∧
      ((∃ child ∈ m.children, some child.slug ∉ systemSlugs start org) → master.type = m.type) ∧
      Restoring start (insertMissing (systemSlugs start org) s (m.row org)).1 ∧
      (insertMissing (systemSlugs start org) s (m.row org)).1.get? q = some master := by
    unfold insertMissing
    by_cases hpresent : some m.slug ∈ systemSlugs start org
    · obtain ⟨c, hc⟩ := exists_systemCategory hpresent
      obtain ⟨extra, hrows⟩ := h.rows
      have hfind : systemCategory? s.1 org m.slug = some c := by
        rw [systemCategory?, hrows, List.find?_append]
        exact Option.or_eq_some_iff.mpr (.inl hc)
      have hcprop := List.find?_some hfind
      simp only [decide_eq_true_eq] at hcprop
      have hget := Table.get?_of_mem (List.mem_of_find?_eq_some hfind)
      refine ⟨c.id, c, by rw [if_pos hpresent, hfind, Option.map_some], ⟨?_, hcprop.1⟩,
        hplace m hm c hc, ?_⟩
      · exact h.roots _ c hget hcprop.2.2 ⟨m, hm, hcprop.2.1⟩
      · rw [if_pos (by exact hpresent)]
        exact ⟨h, hget⟩
    · refine ⟨s.1.next, { m.row org with id := s.1.next }, by rw [if_neg hpresent], ⟨rfl, rfl⟩,
        fun _ => rfl, ?_⟩
      rw [if_neg (by exact hpresent)]
      exact ⟨h.insert (fun p hp => by simp [MasterDef.row] at hp) fun _ _ => rfl,
        Table.get?_insert_next _ _⟩
  unfold Pfv.insertMaster
  rw [hq]
  refine (foldl_insertMissing_invariant
    (I := fun t => Restoring start t ∧ t.get? q = some master) _ _ ?_ hs).1
  rintro t c hc hmissing ⟨ht, hget⟩
  obtain ⟨child, hchild, rfl⟩ := List.mem_map.mp hc
  refine ⟨ht.insert (fun p hp => ?_) fun _ hslug => ?_, Table.get?_insert_of_some _ hget⟩
  · rw [← Option.some_inj.mp hp]
    exact ⟨master, hget, hmaster.1, hmaster.2, htype ⟨child, hchild, hmissing⟩⟩
  · obtain ⟨m', hm', hslug⟩ := hslug
    exact absurd (Option.some_inj.mp hslug) (childSlug_ne hm hchild hm')

/-- A restore that adds subcategories only below masters of their recommended type keeps the trees
of all organisations. -/
theorem Restoring.restore (htree : ∀ o, TreeOk cats o) (hroots : MastersAreRoots cats)
    (hplace : RestoresInPlace cats org) :
    Restoring cats (restoreRecommendedCategories cats org).1 := by
  have hmasters : ∀ (l : List MasterDef) (s : Table Category × ℕ), (∀ m ∈ l, m ∈ systemCategories) →
      Restoring cats s.1 →
      Restoring cats (l.foldl (Pfv.insertMaster org (systemSlugs cats org)) s).1 := by
    intro l
    induction l with
    | nil => exact fun s _ hs => hs
    | cons m l ih =>
      exact fun s hl hs => ih _ (fun m' hm' => hl m' (List.mem_cons_of_mem m hm'))
        (hs.insertMaster (hl m List.mem_cons_self) hplace)
  refine foldl_insertMissing_invariant _ _ (fun t c hc _ ht => ?_)
    (hmasters systemCategories (cats, 0) (fun _ hm => hm) ⟨htree, hroots, [], by simp⟩)
  obtain ⟨m, -, rfl⟩ := List.mem_map.mp hc
  exact ht.insert (fun p hp => by simp [MasterDef.row] at hp) fun _ _ => rfl

/-- A change that keeps the slugs of system categories and keeps masters where they are. -/
theorem MastersAreRoots.of_get? {cats' : Table Category} (h : MastersAreRoots cats)
    (hrow : ∀ i d, cats'.get? i = some d → ∃ c, cats.get? i = some c ∧ d.isSystem = c.isSystem ∧
      d.slug = c.slug ∧ (c.parentId = none → d.parentId = none)) : MastersAreRoots cats' := by
  intro i d hd hsys hslug
  obtain ⟨c, hc, hsys', hslug', hroot⟩ := hrow i d hd
  rw [hsys'] at hsys
  rw [hslug'] at hslug
  exact hroot (h i c hc hsys hslug)

theorem UpdatePlan.apply_slug (p : UpdatePlan) (c : Category) :
    (p.apply c).slug = c.slug ∧ (p.apply c).isSystem = c.isSystem := by
  unfold UpdatePlan.apply
  split_ifs <;> exact ⟨rfl, rfl⟩

theorem Movable.mastersAreRoots {s t : ℕ} (hmove : Movable books.categories org s t)
    (h : MastersAreRoots books.categories) :
    MastersAreRoots (setParent books org s t).categories := by
  obtain ⟨sub, -, hsub, hsorg, hspar, -⟩ := hmove.exists_rows
  refine h.of_get? fun i d hd => ?_
  rw [get?_setParent] at hd
  split_ifs at hd with hi
  · rw [hi, hsub, Option.map_some, if_pos hsorg, Option.some_inj] at hd
    subst hd
    exact ⟨sub, hi ▸ hsub, rfl, rfl, fun hnone => absurd hnone hspar⟩
  · exact ⟨d, hd, rfl, rfl, id⟩

theorem MastersAreRoots.remove {x : ℕ} (h : MastersAreRoots books.categories) :
    MastersAreRoots (removeCategory books org x).categories := by
  refine h.of_get? fun i d hd => ?_
  rw [get?_removeCategory] at hd
  split_ifs at hd
  obtain ⟨c, hc, rfl⟩ := Option.map_eq_some_iff.mp hd
  refine ⟨c, hc, ?_⟩
  unfold Category.orphan
  split_ifs
  · exact ⟨rfl, rfl, fun _ => rfl⟩
  · exact ⟨rfl, rfl, id⟩

/-- The requests other than a restore keep the recommended masters masters. -/
theorem CategoryRequest.step_mastersAreRoots [Casing] {r : CategoryRequest}
    (h : MastersAreRoots books.categories) (hr : ∀ org, r ≠ .restore org)
    (hstep : r.step books = .ok books') : MastersAreRoots books'.categories := by
  cases r with
  | create org body =>
    obtain ⟨c, -, hslug, -, rfl⟩ := createCategory_ok hstep
    refine h.insert fun _ ⟨m, _, hm⟩ => ?_
    rw [hslug] at hm
    exact absurd hm (by simp)
  | update org id body =>
    obtain ⟨p, -, hwrite⟩ := bind_eq_ok.mp hstep
    obtain ⟨hf, rfl⟩ := updateCategoryWrite_ok hwrite
    refine h.of_get? fun i d hd => ?_
    rw [Table.get?_mapRows, Option.map_eq_some_iff] at hd
    obtain ⟨c, hc, rfl⟩ := hd
    exact ⟨c, hc, (p.apply_slug c).2, (p.apply_slug c).1, fun hroot => by
      rw [p.apply_parentId, hroot]⟩
  | move org sub target =>
    obtain ⟨s, t, hmove, rfl⟩ := moveSubcategory_ok hstep
    exact hmove.mastersAreRoots h
  | batchMove org moves =>
    obtain ⟨resolved, hmoves, rfl⟩ := batchMoveSubcategories_ok hstep
    exact foldl_setParent_invariant (I := fun b => MastersAreRoots b.categories)
      (fun b s t hb hmove => hmove.mastersAreRoots hb) resolved books h hmoves
  | delete org id target =>
    obtain ⟨p, -, hwrite⟩ := bind_eq_ok.mp hstep
    rw [deleteCategoryWrite_ok hwrite]
    rw [← migrate_categories p books org] at h
    exact h.remove
  | restore org => exact absurd rfl (hr org)

/-! ### Runs -/

/-- A restore adds subcategories only below masters that have their recommended type. -/
def CategoryRequest.KeepsTree (books : Books) : CategoryRequest → Prop
  | .restore org => RestoresInPlace books.categories org
  | _ => True

/-- The categories are those seeded for some organisations, one after another. -/
def Books.FreshlySeeded (books : Books) : Prop :=
  ∃ orgs : List ℕ, orgs.Nodup ∧ books.categories = orgs.foldl seedCategories .empty

/-- Seeding an organisation adds rows of that organisation only. -/
theorem orgId_of_mem_seedCategories {c : Category}
    (hc : c ∈ (seedCategories cats org).rows) : c ∈ cats.rows ∨ c.orgId = org := by
  have hstep : ∀ (l : List Category) (existing : List (Option String)) (s : Table Category × ℕ),
      (∀ d ∈ l, d.orgId = org) → (∀ d ∈ s.1.rows, d ∈ cats.rows ∨ d.orgId = org) →
      ∀ d ∈ (l.foldl (insertMissing existing) s).1.rows, d ∈ cats.rows ∨ d.orgId = org := by
    intro l existing s hl hs
    refine foldl_insertMissing_invariant (I := fun t => ∀ d ∈ t.rows, d ∈ cats.rows ∨ d.orgId = org)
      l s (fun t d hd _ ht e he => ?_) hs
    rcases List.mem_append.mp he with he | he
    · exact ht e he
    · rw [List.mem_singleton.mp he]
      exact .inr (hl d hd)
  have hmasters : ∀ (l : List MasterDef) (existing : List (Option String))
      (s : Table Category × ℕ), (∀ d ∈ s.1.rows, d ∈ cats.rows ∨ d.orgId = org) →
      ∀ d ∈ (l.foldl (Pfv.insertMaster org existing) s).1.rows, d ∈ cats.rows ∨ d.orgId = org := by
    intro l existing
    induction l with
    | nil => exact fun s hs => hs
    | cons m l ih =>
      refine fun s hs => ih _ (hstep _ existing _ (fun d hd => ?_)
        (hstep [m.row org] existing s (fun d hd => ?_) hs))
      · obtain ⟨child, -, rfl⟩ := List.mem_map.mp hd
        rfl
      · rw [List.mem_singleton.mp hd]
        rfl
  refine hstep _ _ _ (fun d hd => ?_) (hmasters _ _ (cats, 0) fun d hd => .inl hd) c hc
  obtain ⟨m, -, rfl⟩ := List.mem_map.mp hd
  rfl

/-- The trees of seeded organisations are in order. -/
theorem Books.FreshlySeeded.restoring (h : books.FreshlySeeded) :
    (∀ o, TreeOk books.categories o) ∧ MastersAreRoots books.categories := by
  obtain ⟨orgs, hnodup, hcats⟩ := h
  rw [hcats]
  -- The organisations that are still to be seeded have no categories yet.
  suffices hseed : ∀ (l : List ℕ) (t : Table Category), l.Nodup → (∀ c ∈ t.rows, c.orgId ∉ l) →
      (∀ o, TreeOk t o) → MastersAreRoots t →
      (∀ o, TreeOk (l.foldl seedCategories t) o) ∧ MastersAreRoots (l.foldl seedCategories t) by
    refine hseed orgs .empty hnodup (by simp [Table.empty]) (fun o i c hc => ?_) fun i c hc => ?_
    · simp at hc
    · simp at hc
  intro l
  induction l with
  | nil => exact fun t _ _ htree hroots => ⟨htree, hroots⟩
  | cons org l ih =>
    intro t hl hfresh htree hroots
    rw [List.nodup_cons] at hl
    have hplace : RestoresInPlace t org := fun m _ master hmaster => by
      have hprop := List.find?_some hmaster
      simp only [decide_eq_true_eq] at hprop
      exact absurd (List.mem_cons_self)
        (hprop.1 ▸ hfresh master (List.mem_of_find?_eq_some hmaster))
    have hnext := Restoring.restore htree hroots hplace
    refine ih _ hl.2 (fun c hc hmem => ?_) hnext.tree hnext.roots
    rcases orgId_of_mem_seedCategories hc with hold | hnew
    · exact hfresh c hold (List.mem_cons_of_mem org hmem)
    · exact hl.1 (hnew ▸ hmem)

/-- The category tree: from the seeded defaults, after every run of requests in which restores add
subcategories only below masters that have their recommended type, every category with a parent has
a master above it, of its own organisation and its own type. -/
theorem tree_of_run [Casing] (hseeded : books.FreshlySeeded) {rs : List CategoryRequest}
    (hrs : Admits (fun b r => r.KeepsTree b) CategoryRequest.step books rs) {i p : ℕ}
    {c : Category} (hc : (serveAll CategoryRequest.step books rs).categories.get? i = some c)
    (hp : c.parentId = some p) :
    ∃ m, (serveAll CategoryRequest.step books rs).categories.get? p = some m ∧
      m.parentId = none ∧ m.orgId = c.orgId ∧ m.type = c.type := by
  have hrun := serveAll_invariant
    (I := fun b : Books => (∀ o, TreeOk b.categories o) ∧ MastersAreRoots b.categories)
    (fun b r b' hb hr hstep => ?_) rs hseeded.restoring hrs
  · exact hrun.1 c.orgId i c hc rfl p hp
  · by_cases hrestore : ∃ org, r = .restore org
    · obtain ⟨org, rfl⟩ := hrestore
      obtain rfl := Except.ok.inj hstep
      have hdone := Restoring.restore hb.1 hb.2 hr
      exact ⟨hdone.tree, hdone.roots⟩
    · have hne : ∀ org, r ≠ .restore org := fun org hr => hrestore ⟨org, hr⟩
      exact ⟨fun o => CategoryRequest.step_treeOk (hb.1 o) hne hstep,
        CategoryRequest.step_mastersAreRoots hb.2 hne hstep⟩

end

/-! ### Sample runs -/

attribute [local instance] asciiCasing

/-- The books of one organisation with the recommended categories and nothing else. -/
def sampleBooks : Books where
  accountTypes := .empty
  accounts := .empty
  categories := seedCategories .empty 1
  transactions := .empty
  recurring := .empty
  importBatches := .empty
  categoryRules := .empty
  budgets := .empty
  forecastPlans := .empty
  forecastPlanItems := .empty

theorem sampleBooks_freshlySeeded : sampleBooks.FreshlySeeded :=
  ⟨[1], by simp, rfl⟩

/-- The recommended gifts below giving are deleted and restored. -/
def sampleRestoreRun : List CategoryRequest :=
  [.delete 1 61 none, .restore 1]

theorem sampleRestoreRun_admits :
    Admits (fun b r => r.KeepsTree b) CategoryRequest.step sampleBooks sampleRestoreRun := by
  refine ⟨trivial, ?_, trivial⟩
  show RestoresInPlace _ 1
  decide +kernel

/-- The restored gifts have the type of giving. -/
theorem tree_of_sampleRestoreRun :
    ∃ c m,
      (serveAll CategoryRequest.step sampleBooks sampleRestoreRun).categories.get? 68 = some c ∧
      (serveAll CategoryRequest.step sampleBooks sampleRestoreRun).categories.get? 59 = some m ∧
      m.type = c.type := by
  have hrow : ((serveAll CategoryRequest.step sampleBooks sampleRestoreRun).categories.get? 68).map
      (·.parentId) = some (some 59) := by
    decide +kernel
  obtain ⟨c, hc, hp⟩ := Option.map_eq_some_iff.mp hrow
  obtain ⟨m, hm, -, -, htype⟩ := tree_of_run sampleBooks_freshlySeeded sampleRestoreRun_admits hc hp
  exact ⟨c, m, hc, hm, htype⟩

/-- Giving becomes income before its gifts are restored. -/
def sampleRetypedRun : List CategoryRequest :=
  [.delete 1 61 none, .update 1 59 { type := some .income }, .restore 1]

/-- The restored gifts are an expense below an income master. -/
theorem childType_ne_of_sampleRetypedRun :
    ∃ c m,
      (serveAll CategoryRequest.step sampleBooks sampleRetypedRun).categories.get? 68 = some c ∧
      c.parentId = some 59 ∧
      (serveAll CategoryRequest.step sampleBooks sampleRetypedRun).categories.get? 59 = some m ∧
      m.type ≠ c.type := by
  have hchild :
      ((serveAll CategoryRequest.step sampleBooks sampleRetypedRun).categories.get? 68).map
        (fun c => (c.parentId, c.type)) = some (some 59, .expense) := by
    decide +kernel
  have hmaster :
      ((serveAll CategoryRequest.step sampleBooks sampleRetypedRun).categories.get? 59).map
        (·.type) = some .income := by
    decide +kernel
  obtain ⟨c, hc, hcrow⟩ := Option.map_eq_some_iff.mp hchild
  obtain ⟨m, hm, hmtype⟩ := Option.map_eq_some_iff.mp hmaster
  obtain ⟨hpar, hctype⟩ := Prod.ext_iff.mp hcrow
  exact ⟨c, m, hc, hpar, hm, by rw [hmtype, show c.type = .expense from hctype]; decide⟩

end Pfv
