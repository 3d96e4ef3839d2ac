import Pfv.Base.Session
import Pfv.Categories.Tree

/-!
# Concurrent changes of the category tree

Creating, updating, moving and deleting categories reads and checks in one step and writes and
commits in another (`backend/app/services/category_service.py`,
`backend/app/routers/categories.py`); none of these requests locks the rows it has read. What a
check finds out about the level of a category lasts until the commit, since no request moves a
master below another or turns a subcategory into a master. What it finds out about types need not
last: a master may be retyped, with the subcategories it had, while a subcategory of the old type is
on its way to it.

## Main definitions

* `TreeRequest`, `TreePlan`, `treeSystem`: the requests in two steps.
* `TreePlan.Placed`: what a check establishes about levels and organisations.
* `TreePlan.Fits`: the types a plan relies on are those it is committed to.

## Main results

* `TreeRequest.check_commit`: a request with nothing in between is the request itself.
* `TreePlan.placed_of_check`, `TreePlan.Placed.mono`: what a check establishes, and that it lasts.
* `TreePlan.treeOk_of_commit`: a commit keeps the tree when the types still fit.
* `tree_of_interleaving`: the tree after every interleaving of such commits.
-/

namespace Pfv

/-! ### The system -/

inductive TreeRequest
  | create (org : ℕ) (body : CategoryCreate)
  | update (org id : ℕ) (body : CategoryUpdate)
  | move (org subcategoryId targetParentId : ℕ)
  | batchMove (org : ℕ) (moves : List BatchMoveItem)
  | delete (org id : ℕ) (target : Option ℕ)

/-- The request as one that is served at once. -/
def TreeRequest.toRequest : TreeRequest → CategoryRequest
  | .create org body => .create org body
  | .update org id body => .update org id body
  | .move org sub target => .move org sub target
  | .batchMove org moves => .batchMove org moves
  | .delete org id target => .delete org id target

/-- What a request writes once its checks have passed. A delete also clears the parents of the rows
it has read below its category. -/
inductive TreePlan
  | create (cat : Category)
  | update (org : ℕ) (p : UpdatePlan)
  | move (org sub target : ℕ)
  | batchMove (org : ℕ) (resolved : List (ℕ × ℕ))
  | delete (org : ℕ) (p : DeletePlan) (childIds : List ℕ)

/-- The ids of the rows below a category, of whatever organisation: its relationship `children`. -/
def relatedChildren (books : Books) (id : ℕ) : List ℕ :=
  (books.categories.rows.filter (·.parentId = some id)).map (·.id)

/-- The reads and checks of a request. -/
def TreeRequest.check [Casing] (books : Books) : TreeRequest → Except ServiceError TreePlan
  | .create org body => do
      let type ← effectiveType books org body
      pure (.create { orgId := org, parentId := body.parentId, name := body.name, type := type })
  | .update org id body => do
      let p ← updateCategoryCheck books org id body
      pure (.update org p)
  | .move org sub target => do
      let (sub, target) ← resolveForMove books org sub target
      pure (.move org sub.id target.id)
  | .batchMove org moves => do
      raiseIf (moves = []) (.validation "No moves provided")
      let resolved ← resolveMoves books org moves []
      pure (.batchMove org resolved)
  | .delete org id target => do
      let p ← deleteCategoryCheck books org id target
      pure (.delete org p (relatedChildren books p.id))

/-- Whether the row of a category is gone. -/
def Books.lacksCategory (books : Books) (id : ℕ) : Bool :=
  (books.categories.get? id).isNone

/-- Clear the parents of some categories. -/
def clearParents (books : Books) (ids : List ℕ) : Books :=
  { books with
    categories := books.categories.mapRows
      (fun c => if c.id ∈ ids then { c with parentId := none } else c) fun c => by
        show (if _ then _ else _ : Category).id = c.id
        split_ifs <;> rfl }

/-- The writes of a request. A row that is written one by one must be there, and so must every
parent that is written; a row cannot be deleted while another hangs below it. -/
def TreePlan.commit (books : Books) : TreePlan → Except ServiceError Books
  | .create cat => do
      checkCategoryName cat.name
      raiseIf (cat.parentId.any books.lacksCategory = true) (.database "categories")
      pure { books with categories := books.categories.insert cat }
  | .update _ p => updateCategoryWrite books p
  | .move org sub target => do
      raiseIf (books.lacksCategory sub = true ∨ books.lacksCategory target = true)
        (.database "categories")
      pure (setParent books org sub target)
  | .batchMove org resolved => do
      -- An `UPDATE` that finds no row is no error here.
      raiseIf (resolved.any (fun m => (books.category? m.1 org).isSome && books.lacksCategory m.2) =
        true) (.database "categories")
      pure (resolved.foldl (fun b m => setParent b org m.1 m.2) books)
  | .delete org p childIds => do
      raiseIf (childIds.any books.lacksCategory = true) (.database "categories")
      let unlinked := clearParents books childIds
      raiseIf (relatedChildren unlinked p.id ≠ []) (.database "categories")
      deleteCategoryWrite unlinked org p

/-- The requests of all organisations. -/
def treeSystem [Casing] : TwoStep Books TreeRequest TreePlan ServiceError where
  check books r := (r.check books).map fun p => (books, p)
  commit books p := p.commit books

/-! ### Levels and types -/

def Category.IsMaster (org : ℕ) (c : Category) : Prop :=
  c.orgId = org ∧ c.parentId = none

def Category.IsSub (org : ℕ) (c : Category) : Prop :=
  c.orgId = org ∧ c.parentId ≠ none

/-- An id has been given to a category, which satisfies `P` if it is still there. -/
def Known (cats : Table Category) (P : Category → Prop) (i : ℕ) : Prop :=
  i < cats.next ∧ ∀ c, cats.get? i = some c → P c

/-- The rows of a plan are where its checks have found them: its own ones in the organisation of the
request, a parent at the top level, and what is moved below it. -/
def TreePlan.Placed (org : ℕ) (books : Books) : TreePlan → Prop
  | .create cat =>
      cat.orgId = org → ∀ q ∈ cat.parentId, Known books.categories (Category.IsMaster org) q
  | .update o p => ∀ i ∈ p.id :: p.childIds, Known books.categories (fun c => c.orgId = o) i
  | .move o sub target => o = org → Known books.categories (Category.IsSub org) sub ∧
      Known books.categories (Category.IsMaster org) target
  | .batchMove o resolved => o = org → ∀ m ∈ resolved,
      Known books.categories (Category.IsSub org) m.1 ∧
        Known books.categories (Category.IsMaster org) m.2
  | .delete _ _ childIds => ∀ i ∈ childIds, Known books.categories (fun c => c.orgId ≠ org) i

/-- Two categories that are both there have one type. -/
def SameType (books : Books) (i j : ℕ) : Prop :=
  ∀ c ∈ books.categories.get? i, ∀ d ∈ books.categories.get? j, c.type = d.type

/-- The types a plan relies on are those it is committed to: a new subcategory, and one that moves,
has the type that its master has by now, and a new type is written to a subcategory if and only if
it is written to its master by now, or is its type already. -/
def TreePlan.Fits (org : ℕ) (books : Books) : TreePlan → Prop
  | .create cat => cat.orgId = org →
      ∀ q ∈ cat.parentId, ∀ m ∈ books.categories.get? q, m.type = cat.type
  | .update o p => o = org → ∀ t ∈ p.newType, ∀ c ∈ books.categories.rows, c.orgId = org →
      ∀ q ∈ c.parentId,
        (c.id ∈ p.id :: p.childIds ↔ q ∈ p.id :: p.childIds) ∨ c.type = t
  | .move o sub target => o = org → SameType books sub target
  | .batchMove o resolved => o = org → ∀ m ∈ resolved, SameType books m.1 m.2
  | .delete _ _ _ => True

instance (books : Books) (i j : ℕ) : Decidable (SameType books i j) :=
  inferInstanceAs (Decidable (∀ c ∈ books.categories.get? i, ∀ d ∈ books.categories.get? j,
    c.type = d.type))

instance (org : ℕ) (books : Books) : ∀ p : TreePlan, Decidable (p.Fits org books)
  | .create cat => inferInstanceAs (Decidable (cat.orgId = org →
      ∀ q ∈ cat.parentId, ∀ m ∈ books.categories.get? q, m.type = cat.type))
  | .update o p => inferInstanceAs (Decidable (o = org → ∀ t ∈ p.newType,
      ∀ c ∈ books.categories.rows, c.orgId = org → ∀ q ∈ c.parentId,
        (c.id ∈ p.id :: p.childIds ↔ q ∈ p.id :: p.childIds) ∨ c.type = t))
  | .move o sub target => inferInstanceAs (Decidable (o = org → SameType books sub target))
  | .batchMove o resolved =>
      inferInstanceAs (Decidable (o = org → ∀ m ∈ resolved, SameType books m.1 m.2))
  | .delete _ _ _ => .isTrue trivial

section

variable {books books' : Books} {org : ℕ}

/-! ### A request with nothing in between -/

theorem lacksCategory_eq_false {i : ℕ} {c : Category} (h : books.categories.get? i = some c) :
    books.lacksCategory i = false := by
  simp [Books.lacksCategory, h]

theorem mem_relatedChildren {id i : ℕ} :
    i ∈ relatedChildren books id ↔
      ∃ c, books.categories.get? i = some c ∧ c.parentId = some id := by
  simp only [relatedChildren, List.mem_map, List.mem_filter, decide_eq_true_eq, Table.mem_rows_iff]
  constructor
  · rintro ⟨c, ⟨hc, hp⟩, rfl⟩
    exact ⟨c, hc, hp⟩
  · rintro ⟨c, hc, hp⟩
    exact ⟨c, ⟨Table.get?_self hc, hp⟩, Category.id_of_get? hc⟩

theorem get?_clearParents (books : Books) (ids : List ℕ) (i : ℕ) :
    (clearParents books ids).categories.get? i =
      if i ∈ ids then (books.categories.get? i).map fun c => { c with parentId := none }
      else books.categories.get? i := by
  rw [clearParents, Table.get?_mapRows]
  cases hc : books.categories.get? i with
  | none => simp
  | some c =>
    have hid : c.id = i := Category.id_of_get? hc
    simp only [Option.map_some, hid]
    split_ifs <;> rfl

/-- Once the parents of the rows below a category are cleared, nothing is below it. -/
theorem relatedChildren_clearParents (books : Books) (id : ℕ) :
    relatedChildren (clearParents books (relatedChildren books id)) id = [] := by
  refine List.eq_nil_iff_forall_not_mem.mpr fun i hi => ?_
  obtain ⟨c, hc, hp⟩ := mem_relatedChildren.mp hi
  rw [get?_clearParents] at hc
  split_ifs at hc with hmem
  · obtain ⟨d, -, rfl⟩ := Option.map_eq_some_iff.mp hc
    exact absurd hp (by simp)
  · exact hmem (mem_relatedChildren.mpr ⟨c, hc, hp⟩)

theorem migrate_clearParents (p : DeletePlan) (books : Books) (ids : List ℕ) :
    p.migrate (clearParents books ids) org = clearParents (p.migrate books org) ids := by
  unfold DeletePlan.migrate
  split <;> rfl

/-- Clearing the parents of the rows below a category beforehand makes no difference to its
removal. -/
theorem removeCategory_clearParents (books : Books) (org id : ℕ) :
    removeCategory (clearParents books (relatedChildren books id)) org id =
      removeCategory books org id := by
  -- A row below the category is orphaned by the removal anyway, and its id stays.
  have hrow : ∀ c ∈ books.categories.rows,
      Category.orphan id (if c.id ∈ relatedChildren books id then { c with parentId := none }
        else c) = Category.orphan id c := by
    intro c hc
    have hget : books.categories.get? c.id = some c := Table.mem_rows_iff.mp hc
    have hchild : c.id ∈ relatedChildren books id ↔ c.parentId = some id := by
      rw [mem_relatedChildren]
      constructor
      · rintro ⟨d, hd, hp⟩
        rw [hget, Option.some_inj] at hd
        exact hd ▸ hp
      · exact fun hp => ⟨c, hget, hp⟩
    simp only [hchild, Category.orphan]
    split_ifs <;> simp_all
  have hcats : (removeCategory (clearParents books (relatedChildren books id)) org id).categories =
      (removeCategory books org id).categories := by
    refine Table.ext ?_ rfl
    have hid : (fun c : Category => decide (c.id ≠ id)) ∘ (fun c : Category =>
        if c.id ∈ relatedChildren books id then { c with parentId := none } else c) =
        fun c => decide (c.id ≠ id) := by
      funext c
      simp only [Function.comp_apply]
      split_ifs <;> rfl
    show List.map _ (List.filter _ (List.map _ books.categories.rows)) =
      List.map _ (List.filter _ books.categories.rows)
    rw [List.filter_map, hid, List.map_map]
    exact List.map_congr_left fun c hc => hrow c (List.mem_of_mem_filter hc)
  exact congrArg (fun cats => { removeCategory books org id with categories := cats }) hcats

theorem deleteCategoryWrite_clearParents (books : Books) (p : DeletePlan) :
    deleteCategoryWrite (clearParents books (relatedChildren books p.id)) org p =
      deleteCategoryWrite books org p := by
  have hchildren : relatedChildren books p.id = relatedChildren (p.migrate books org) p.id := by
    rw [relatedChildren, relatedChildren, migrate_categories]
  simp only [deleteCategoryWrite, migrate_clearParents]
  rw [hchildren, removeCategory_clearParents]
  rfl

/-- The type of a new subcategory is that of a master of the organisation. -/
theorem effectiveType_ok {body : CategoryCreate} {type : CategoryType}
    (h : effectiveType books org body = .ok type) {q : ℕ} (hq : body.parentId = some q) :
    ∃ m, books.categories.get? q = some m ∧ m.IsMaster org ∧ m.type = type := by
  simp only [effectiveType, hq, bind_eq_ok, ↓unit_bind_eq_ok, orRaise_eq_ok, raiseIf_eq_ok,
    pure_eq_ok] at h
  obtain ⟨m, hm, hmaster, rfl⟩ := h
  obtain ⟨hget, horg⟩ := Db.category?_eq_some.mp hm
  exact ⟨m, hget, ⟨horg, by simpa using hmaster⟩, rfl⟩

/-- With nothing in between, a check and the commit of its plan are the request served at once. -/
theorem TreeRequest.check_commit [Casing] (r : TreeRequest) (books : Books) :
    (r.check books >>= fun p => p.commit books) = r.toRequest.step books := by
  cases r with
  | create org body =>
    show (effectiveType books org body >>= _) >>= _ = createCategory books org body
    cases htype : effectiveType books org body with
    | error e =>
      rw [createCategory, htype]
      rfl
    | ok type =>
      have hparent : body.parentId.any books.lacksCategory = false := by
        cases hq : body.parentId with
        | none => rfl
        | some q =>
          obtain ⟨m, hm, -⟩ := effectiveType_ok htype hq
          exact lacksCategory_eq_false hm
      rw [createCategory, htype]
      show TreePlan.commit books (.create _) = _
      simp only [TreePlan.commit, hparent]
      rfl
  | update org id body =>
    show (updateCategoryCheck books org id body >>= _) >>= _ = updateCategory books org id body
    simp [updateCategory, TreePlan.commit]
  | move org sub target =>
    show (resolveForMove books org sub target >>= _) >>= _ = moveSubcategory books org sub target
    cases hmove : resolveForMove books org sub target with
    | error e =>
      rw [moveSubcategory, hmove]
      rfl
    | ok x =>
      obtain ⟨s, t, hs, -, -, ht, -⟩ := (resolveForMove_ok hmove).exists_rows
      rw [moveSubcategory, hmove]
      show TreePlan.commit books (.move _ _ _) = _
      simp only [TreePlan.commit, lacksCategory_eq_false hs, lacksCategory_eq_false ht]
      rfl
  | batchMove org moves =>
    show (raiseIf _ _ >>= _) >>= _ = batchMoveSubcategories books org moves
    unfold batchMoveSubcategories
    cases raiseIf (moves = []) (ServiceError.validation "No moves provided") with
    | error e => rfl
    | ok u =>
      show (resolveMoves books org moves [] >>= _) >>= _ = (resolveMoves books org moves [] >>= _)
      cases hmoves : resolveMoves books org moves [] with
      | error e => rfl
      | ok resolved =>
        have hparents : resolved.any (fun m =>
            (books.category? m.1 org).isSome && books.lacksCategory m.2) = false := by
          refine List.any_eq_false.mpr fun m hm => ?_
          obtain ⟨s, t, -, -, -, ht, -⟩ := (resolveMoves_ok hmoves m hm).exists_rows
          simp [lacksCategory_eq_false ht]
        show TreePlan.commit books (.batchMove _ _) = _
        simp only [TreePlan.commit, hparents]
        rfl
  | delete org id target =>
    show (deleteCategoryCheck books org id target >>= _) >>= _ =
      deleteCategoryWithMigration books org id target
    cases hcheck : deleteCategoryCheck books org id target with
    | error e =>
      rw [deleteCategoryWithMigration, hcheck]
      rfl
    | ok p =>
      have hrows : (relatedChildren books p.id).any books.lacksCategory = false := by
        refine List.any_eq_false.mpr fun i hi => ?_
        obtain ⟨c, hc, -⟩ := mem_relatedChildren.mp hi
        simp [lacksCategory_eq_false hc]
      rw [deleteCategoryWithMigration, hcheck]
      show TreePlan.commit books (.delete _ _ _) = _
      simp only [TreePlan.commit, hrows, relatedChildren_clearParents,
        deleteCategoryWrite_clearParents]
      rfl

/-! ### What a check establishes, and that it lasts -/

/-- From one state to a later one ids are not given again, rows keep their organisation, and the
rows of one organisation keep their level. -/
structure KeepsLevels (org : ℕ) (cats cats' : Table Category) : Prop where
  next : cats.next ≤ cats'.next
  rows : ∀ i c', i < cats.next → cats'.get? i = some c' → ∃ c, cats.get? i = some c ∧
    c'.orgId = c.orgId ∧ (c.orgId = org → (c'.parentId = none ↔ c.parentId = none))

variable {cats cats' cats'' : Table Category}

theorem KeepsLevels.refl (cats : Table Category) : KeepsLevels org cats cats where
  next := le_refl _
  rows _ c' _ hc' := ⟨c', hc', rfl, fun _ => Iff.rfl⟩

theorem KeepsLevels.trans (h : KeepsLevels org cats cats') (h' : KeepsLevels org cats' cats'') :
    KeepsLevels org cats cats'' where
  next := h.next.trans h'.next
  rows i c'' hi hc'' := by
    obtain ⟨c', hc', horg', hlevel'⟩ := h'.rows i c'' (hi.trans_le h.next) hc''
    obtain ⟨c, hc, horg, hlevel⟩ := h.rows i c' hi hc'
    exact ⟨c, hc, horg'.trans horg, fun ho => (hlevel' (horg.trans ho)).trans (hlevel ho)⟩

theorem Known.of_get? {P : Category → Prop} {i : ℕ} {c : Category} (hc : cats.get? i = some c)
    (h : P c) : Known cats P i :=
  ⟨Table.get?_lt hc, fun _ hd => Option.some_inj.mp (hc.symm.trans hd) ▸ h⟩

/-- What is known of a row by its organisation and its level lasts. -/
theorem Known.mono {P : Category → Prop} {i : ℕ} (hk : Known cats P i)
    (h : KeepsLevels org cats cats')
    (hP : ∀ c c' : Category, c'.orgId = c.orgId →
      (c.orgId = org → (c'.parentId = none ↔ c.parentId = none)) → P c → P c') :
    Known cats' P i := by
  refine ⟨hk.1.trans_le h.next, fun c' hc' => ?_⟩
  obtain ⟨c, hc, horg, hlevel⟩ := h.rows i c' hk.1 hc'
  exact hP c c' horg hlevel (hk.2 c hc)

theorem Known.isMaster_mono {i : ℕ} (hk : Known cats (Category.IsMaster org) i)
    (h : KeepsLevels org cats cats') : Known cats' (Category.IsMaster org) i :=
  hk.mono h fun _ _ horg hlevel hc => ⟨horg.trans hc.1, (hlevel hc.1).mpr hc.2⟩

theorem Known.isSub_mono {i : ℕ} (hk : Known cats (Category.IsSub org) i)
    (h : KeepsLevels org cats cats') : Known cats' (Category.IsSub org) i :=
  hk.mono h fun _ _ horg hlevel hc => ⟨horg.trans hc.1, fun hroot => hc.2 ((hlevel hc.1).mp hroot)⟩

/-- What a plan has found of its rows lasts while the rows keep their levels. -/
theorem TreePlan.Placed.mono {p : TreePlan} (hp : p.Placed org books)
    (h : KeepsLevels org books.categories books'.categories) : p.Placed org books' := by
  cases p with
  | create cat => exact fun ho q hq => (hp ho q hq).isMaster_mono h
  | update o p => exact fun i hi => (hp i hi).mono h fun _ _ horg _ hc => horg.trans hc
  | move o sub target => exact fun ho => ⟨(hp ho).1.isSub_mono h, (hp ho).2.isMaster_mono h⟩
  | batchMove o resolved =>
    exact fun ho m hm => ⟨(hp ho m hm).1.isSub_mono h, (hp ho m hm).2.isMaster_mono h⟩
  | delete o p childIds => exact fun i hi => (hp i hi).mono h fun _ _ horg _ hc => horg ▸ hc

theorem Movable.known {s t : ℕ} (h : Movable books.categories org s t) :
    Known books.categories (Category.IsSub org) s ∧
      Known books.categories (Category.IsMaster org) t := by
  obtain ⟨sub, target, hsub, hsorg, hspar, htarget, htorg, htmaster, -⟩ := h.exists_rows
  exact ⟨.of_get? hsub ⟨hsorg, hspar⟩, .of_get? htarget ⟨htorg, htmaster⟩⟩

/-- A check that passes on a tree in order has found the rows of its plan in their places. -/
theorem TreePlan.placed_of_check [Casing] {r : TreeRequest} {p : TreePlan}
    (h : TreeOk books.categories org) (hcheck : r.check books = .ok p) : p.Placed org books := by
  cases r with
  | create o body =>
    simp only [TreeRequest.check, bind_eq_ok, pure_eq_ok] at hcheck
    obtain ⟨type, htype, rfl⟩ := hcheck
    intro ho q hq
    obtain ⟨m, hm, hmaster, -⟩ := effectiveType_ok htype hq
    have ho : o = org := ho
    exact .of_get? hm (ho ▸ hmaster)
  | update o id body =>
    simp only [TreeRequest.check, bind_eq_ok, pure_eq_ok] at hcheck
    obtain ⟨p, hcheck, rfl⟩ := hcheck
    obtain ⟨cat, -, hchecked⟩ := updateCategoryCheck_ok hcheck
    obtain ⟨hget, horg⟩ := Db.category?_eq_some.mp hchecked.found
    intro i hi
    rcases List.mem_cons.mp hi with rfl | hi
    · exact .of_get? (hchecked.id ▸ hget) horg
    · cases ht : p.newType with
      | none =>
        rw [hchecked.same ht] at hi
        exact absurd hi List.not_mem_nil
      | some t =>
        obtain ⟨-, c, hc, rfl⟩ := (hchecked.mem_childIds ht).mp hi
        exact .of_get? (mem_childrenOf.mp hc).1 (mem_childrenOf.mp hc).2.2
  | move o sub target =>
    simp only [TreeRequest.check, bind_eq_ok, Prod.exists, pure_eq_ok] at hcheck
    obtain ⟨s, t, hmove, rfl⟩ := hcheck
    rintro rfl
    exact (resolveForMove_ok hmove).known
  | batchMove o moves =>
    simp only [TreeRequest.check, bind_eq_ok, pure_eq_ok] at hcheck
    obtain ⟨-, -, resolved, hmoves, rfl⟩ := hcheck
    rintro rfl
    exact fun m hm => (resolveMoves_ok hmoves m hm).known
  | delete o id target =>
    simp only [TreeRequest.check, bind_eq_ok, pure_eq_ok] at hcheck
    obtain ⟨p, hcheck, rfl⟩ := hcheck
    obtain ⟨cat, -, hchecked⟩ := deleteCategoryCheck_ok hcheck
    -- A row of the organisation below the category would be a subcategory of a childless master.
    intro i hi
    obtain ⟨c, hc, hpar⟩ := mem_relatedChildren.mp hi
    exact .of_get? hc fun hco => hchecked.no_children h hc hco hpar

/-! ### Commits -/

/-- The tree of an organisation is a matter of its own rows. -/
theorem TreeOk.of_own (h : TreeOk cats org)
    (hown : ∀ i c, c.orgId = org → (cats'.get? i = some c ↔ cats.get? i = some c)) :
    TreeOk cats' org := by
  intro i c hc horg q hq
  obtain ⟨m, hm, hmaster, hmorg, htype⟩ := h i c ((hown i c horg).mp hc) horg q hq
  exact ⟨m, (hown q m hmorg).mpr hm, hmaster, hmorg, htype⟩

theorem KeepsLevels.insert (cats : Table Category) (c : Category) :
    KeepsLevels org cats (cats.insert c) where
  next := Nat.le_succ _
  rows i d hi hd := by
    rw [Table.get?_insert, if_neg hi.ne] at hd
    exact ⟨d, hd, rfl, fun _ => Iff.rfl⟩

/-- A change of rows that keeps organisations, and the parents of the rows of one of them. -/
theorem KeepsLevels.mapRows (cats : Table Category) {f : Category → Category} (hf)
    (horg : ∀ c, (f c).orgId = c.orgId)
    (hlevel : ∀ c ∈ cats.rows, c.orgId = org → ((f c).parentId = none ↔ c.parentId = none)) :
    KeepsLevels org cats (cats.mapRows f hf) where
  next := le_refl _
  rows i d _ hd := by
    rw [Table.get?_mapRows] at hd
    obtain ⟨c, hc, rfl⟩ := Option.map_eq_some_iff.mp hd
    exact ⟨c, hc, horg c, hlevel c (Table.get?_mem hc)⟩

/-- The rows of a move once it is committed, and those of its organisation before. -/
theorem keepsLevels_setParent {o s t : ℕ}
    (hsub : o = org → Known books.categories (Category.IsSub org) s) :
    KeepsLevels org books.categories (setParent books o s t).categories where
  next := le_refl _
  rows i d _ hd := by
    rw [get?_setParent] at hd
    split_ifs at hd with hi
    · subst hi
      obtain ⟨c, hc, rfl⟩ := Option.map_eq_some_iff.mp hd
      refine ⟨c, hc, by split_ifs <;> rfl, fun hco => ?_⟩
      split_ifs with ho
      · have hpar := ((hsub (ho.symm.trans hco)).2 c hc).2
        simp [hpar]
      · rfl
    · exact ⟨d, hd, rfl, fun _ => Iff.rfl⟩

/-- A move that writes no row of the organisation leaves its rows alone. -/
theorem get?_setParent_own {o s t : ℕ}
    (h : ∀ c, books.categories.get? s = some c → c.orgId = org → c.orgId ≠ o) (i : ℕ) (c : Category)
    (hc : c.orgId = org) :
    (setParent books o s t).categories.get? i = some c ↔ books.categories.get? i = some c := by
  rw [get?_setParent]
  split_ifs with hi
  · subst hi
    cases hget : books.categories.get? i with
    | none => simp
    | some d =>
      simp only [Option.map_some, Option.some_inj]
      split_ifs with ho
      · have hne : d.orgId ≠ org := fun hd => h d hget hd ho
        constructor
        · rintro rfl
          exact absurd hc hne
        · rintro rfl
          exact absurd hc hne
      · rfl
  · rfl

/-- Moving a subcategory below a master keeps the tree when they have one type by now. -/
theorem treeOk_setParent {o s t : ℕ} (h : TreeOk books.categories org)
    (hplaced : o = org → Known books.categories (Category.IsSub org) s ∧
      Known books.categories (Category.IsMaster org) t)
    (hfits : o = org → SameType books s t)
    (hparent : ∀ c, books.category? s o = some c → ∃ d, books.categories.get? t = some d) :
    TreeOk (setParent books o s t).categories org := by
  by_cases hwrites : o = org ∧ ∃ c, books.category? s o = some c
  · obtain ⟨rfl, c, hc⟩ := hwrites
    obtain ⟨d, hd⟩ := hparent c hc
    obtain ⟨hget, horg⟩ := Db.category?_eq_some.mp hc
    obtain ⟨hsub, hmaster⟩ := hplaced rfl
    have hmove : Movable books.categories o s t :=
      ⟨c, d, hget, horg, (hsub.2 c hget).2, hd, (hmaster.2 d hd).1, (hmaster.2 d hd).2,
        hfits rfl c hget d hd⟩
    exact hmove.treeOk h
  · refine h.of_own (get?_setParent_own fun c hc hco ho => hwrites ⟨ho.symm.trans hco, c, ?_⟩)
    exact Db.category?_eq_some.mpr ⟨hc, ho⟩

/-- A move changes neither the organisation nor the type of a row. -/
theorem map_get?_setParent (books : Books) (o s t i : ℕ) :
    ((setParent books o s t).categories.get? i).map (fun c => (c.orgId, c.type)) =
      (books.categories.get? i).map fun c => (c.orgId, c.type) := by
  rw [get?_setParent]
  split_ifs
  · cases books.categories.get? i with
    | none => rfl
    | some c =>
      simp only [Option.map_some]
      split_ifs <;> rfl
  · rfl

/-- What the moves of a batch keep of the categories they started from: the tree, the levels, and
the organisation and type of every row. -/
structure Moving (org : ℕ) (start books : Books) : Prop where
  tree : TreeOk books.categories org
  levels : KeepsLevels org start.categories books.categories
  types : ∀ i, (books.categories.get? i).map (fun c => (c.orgId, c.type)) =
    (start.categories.get? i).map fun c => (c.orgId, c.type)

theorem Moving.exists_start {start : Books} (h : Moving org start books) {i : ℕ} {c : Category}
    (hc : books.categories.get? i = some c) :
    ∃ d, start.categories.get? i = some d ∧ d.orgId = c.orgId ∧ d.type = c.type := by
  have htypes := h.types i
  rw [hc, Option.map_some, eq_comm, Option.map_eq_some_iff] at htypes
  obtain ⟨d, hd, heq⟩ := htypes
  exact ⟨d, hd, Prod.ext_iff.mp heq⟩

/-- One move of a batch. -/
theorem Moving.setParent {start : Books} {o s t : ℕ} (h : Moving org start books)
    (hplaced : o = org → Known start.categories (Category.IsSub org) s ∧
      Known start.categories (Category.IsMaster org) t)
    (hfits : o = org → SameType start s t)
    (hparent : ¬((start.category? s o).isSome && start.lacksCategory t) = true) :
    Moving org start (setParent books o s t) := by
  have hnow : o = org → Known books.categories (Category.IsSub org) s ∧
      Known books.categories (Category.IsMaster org) t := fun ho =>
    ⟨(hplaced ho).1.isSub_mono h.levels, (hplaced ho).2.isMaster_mono h.levels⟩
  refine ⟨treeOk_setParent h.tree hnow (fun ho c hc d hd => ?_) fun c hc => ?_,
    h.levels.trans (keepsLevels_setParent fun ho => (hnow ho).1),
    fun i => (map_get?_setParent books o s t i).trans (h.types i)⟩
  · obtain ⟨c', hc', -, hctype⟩ := h.exists_start hc
    obtain ⟨d', hd', -, hdtype⟩ := h.exists_start hd
    exact hctype.symm.trans ((hfits ho c' hc' d' hd').trans hdtype)
  · -- The target was there when the batch started, since the subcategory was.
    obtain ⟨hget, hco⟩ := Db.category?_eq_some.mp hc
    obtain ⟨c', hc', horg, -⟩ := h.exists_start hget
    have hsome : start.category? s o = some c' :=
      Db.category?_eq_some.mpr ⟨hc', horg.trans hco⟩
    cases ht : start.categories.get? t with
    | none => exact absurd (by simp [hsome, Books.lacksCategory, ht]) hparent
    | some d' =>
      have htypes := h.types t
      rw [ht, Option.map_some, Option.map_eq_some_iff] at htypes
      obtain ⟨d, hd, -⟩ := htypes
      exact ⟨d, hd⟩

theorem Moving.foldl_setParent {start : Books} {o : ℕ} :
    ∀ (l : List (ℕ × ℕ)) (b : Books), Moving org start b →
      (∀ m ∈ l, (o = org → Known start.categories (Category.IsSub org) m.1 ∧
          Known start.categories (Category.IsMaster org) m.2) ∧
        (o = org → SameType start m.1 m.2) ∧
        ¬((start.category? m.1 o).isSome && start.lacksCategory m.2) = true) →
      Moving org start (l.foldl (fun b m => Pfv.setParent b o m.1 m.2) b)
  | [], _, hb, _ => hb
  | m :: l, b, hb, hl => by
      obtain ⟨hplaced, hfits, hparent⟩ := hl m List.mem_cons_self
      exact foldl_setParent l _ (hb.setParent hplaced hfits hparent) fun m' hm' =>
        hl m' (List.mem_cons_of_mem m hm')

/-- A type change that writes to a subcategory what it writes to its master keeps the tree. -/
theorem treeOk_update {o : ℕ} {p : UpdatePlan} (h : TreeOk books.categories org)
    (hplaced : (TreePlan.update o p).Placed org books)
    (hfits : (TreePlan.update o p).Fits org books)
    (hf) : TreeOk (books.categories.mapRows p.apply hf) org := by
  refine h.mapRows p.apply_parentId p.apply_orgId fun c m hc hm hco hmo hpar _ htype => ?_
  simp only [p.apply_type, ← List.mem_cons]
  by_cases ho : o = org
  · cases ht : p.newType with
    | none => simpa using htype
    | some t =>
      rcases hfits ho t ht c (Table.get?_mem hc) hco m.id hpar with hiff | hct
      · simp only [hiff, Option.getD_some]
        split_ifs
        · rfl
        · exact htype
      · -- The type was theirs already.
        simp only [Option.getD_some, htype, hct, ite_self]
  · have hnot : ∀ d : Category, books.categories.get? d.id = some d → d.orgId = org →
        d.id ∉ p.id :: p.childIds := fun d hd hdo hmem =>
      ho (((hplaced d.id hmem).2 d hd).symm.trans hdo)
    rw [if_neg (hnot c hc hco), if_neg (hnot m hm hmo)]
    exact htype

/-- Clearing the parents of rows of other organisations. -/
theorem clearParents_spec {ids : List ℕ} (h : TreeOk books.categories org)
    (hids : ∀ i ∈ ids, Known books.categories (fun c => c.orgId ≠ org) i) :
    TreeOk (clearParents books ids).categories org ∧
      KeepsLevels org books.categories (clearParents books ids).categories := by
  have hown : ∀ c ∈ books.categories.rows, c.orgId = org → c.id ∉ ids := fun c hc hco hmem =>
    (hids c.id hmem).2 c (Table.mem_rows_iff.mp hc) hco
  refine ⟨h.of_own fun i c hco => ?_,
    KeepsLevels.mapRows _ (fun c => by split_ifs <;> rfl) (fun c => by split_ifs <;> rfl)
      fun c hc hco => by rw [if_neg (hown c hc hco)]⟩
  rw [get?_clearParents]
  split_ifs with hi
  · cases hd : books.categories.get? i with
    | none => simp
    | some d =>
      have hdo : d.orgId ≠ org := (hids i hi).2 d hd
      simp only [Option.map_some, Option.some_inj]
      constructor
      · rintro rfl
        exact absurd hco hdo
      · rintro rfl
        exact absurd hco hdo
  · rfl

/-- Removing a category with nothing below it. -/
theorem removeCategory_spec {x : ℕ} (o : ℕ) (h : TreeOk books.categories org)
    (hx : relatedChildren books x = []) :
    TreeOk (removeCategory books o x).categories org ∧
      KeepsLevels org books.categories (removeCategory books o x).categories := by
  have hchildless : ∀ i c, books.categories.get? i = some c → c.parentId ≠ some x :=
    fun i c hc hpar =>
      List.eq_nil_iff_forall_not_mem.mp hx i (mem_relatedChildren.mpr ⟨c, hc, hpar⟩)
  refine ⟨h.remove fun i c hc _ => hchildless i c hc, ⟨le_refl _, fun i d _ hd => ?_⟩⟩
  rw [get?_removeCategory] at hd
  split_ifs at hd
  obtain ⟨c, hc, rfl⟩ := Option.map_eq_some_iff.mp hd
  rw [Category.orphan, if_neg (hchildless i c hc)]
  exact ⟨c, hc, rfl, fun _ => Iff.rfl⟩

/-- A commit whose types still fit keeps the tree, and the levels of all rows. -/
theorem TreePlan.treeOk_of_commit {p : TreePlan} (h : TreeOk books.categories org)
    (hp : p.Placed org books) (hfits : p.Fits org books) (hwrite : p.commit books = .ok books') :
    TreeOk books'.categories org ∧ KeepsLevels org books.categories books'.categories := by
  cases p with
  | create cat =>
    simp only [TreePlan.commit, ↓unit_bind_eq_ok, raiseIf_eq_ok, pure_eq_ok] at hwrite
    obtain ⟨-, hparent, rfl⟩ := hwrite
    refine ⟨h.insert fun ho q hq => ?_, .insert _ _⟩
    cases hm : books.categories.get? q with
    | none => exact absurd (by simp [hq, Books.lacksCategory, hm]) hparent
    | some m =>
      obtain ⟨hmo, hmaster⟩ := (hp ho q hq).2 m hm
      exact ⟨m, rfl, hmaster, hmo, hfits ho q hq m hm⟩
  | update o p =>
    obtain ⟨hf, rfl⟩ := updateCategoryWrite_ok hwrite
    exact ⟨treeOk_update h hp hfits hf, .mapRows _ hf p.apply_orgId fun c _ _ => by
      rw [p.apply_parentId]⟩
  | move o sub target =>
    simp only [TreePlan.commit, ↓unit_bind_eq_ok, raiseIf_eq_ok, pure_eq_ok] at hwrite
    obtain ⟨hrows, rfl⟩ := hwrite
    refine ⟨treeOk_setParent h hp hfits fun _ _ => ?_, keepsLevels_setParent fun ho => (hp ho).1⟩
    cases ht : books.categories.get? target with
    | none => exact absurd (.inr (by simp [Books.lacksCategory, ht])) hrows
    | some d => exact ⟨d, rfl⟩
  | batchMove o resolved =>
    simp only [TreePlan.commit, ↓unit_bind_eq_ok, raiseIf_eq_ok, pure_eq_ok] at hwrite
    obtain ⟨hparents, rfl⟩ := hwrite
    have hmoving : Moving org books _ := Moving.foldl_setParent (o := o) resolved books
      ⟨h, .refl _, fun _ => rfl⟩ fun m hm => ⟨fun ho => hp ho m hm, fun ho => hfits ho m hm,
        fun hmissing => hparents (List.any_eq_true.mpr ⟨m, hm, hmissing⟩)⟩
    exact ⟨hmoving.tree, hmoving.levels⟩
  | delete o p childIds =>
    simp only [TreePlan.commit, ↓unit_bind_eq_ok, raiseIf_eq_ok, not_not] at hwrite
    obtain ⟨-, hchildless, hwrite⟩ := hwrite
    rw [deleteCategoryWrite_ok hwrite]
    obtain ⟨htree, hlevels⟩ := clearParents_spec h hp
    have hcats := migrate_categories p (clearParents books childIds) o
    obtain ⟨htree', hlevels'⟩ := removeCategory_spec o (hcats ▸ htree)
      (show relatedChildren (p.migrate (clearParents books childIds) o) p.id = [] by
        rw [relatedChildren, hcats]
        exact hchildless)
    exact ⟨htree', hlevels.trans (hcats ▸ hlevels')⟩

/-- The category tree under concurrency: from every state in which the tree of an organisation is in
order, and after every interleaving of the steps of any number of creates, updates, moves and
deletes in which the types each plan relies on are those it is committed to, the tree is in
order. -/
theorem tree_of_interleaving [Casing] (h : TreeOk books.categories org)
    {ts : List (Turn TreeRequest)}
    (hts : treeSystem.sessions.Respects (TwoStep.OnCommit (TreePlan.Fits org)) ⟨books, []⟩ ts) :
    TreeOk (treeSystem.sessions.interleave ⟨books, []⟩ ts).shared.categories org := by
  refine TwoStep.interleave_local (I := fun b : Books => TreeOk b.categories org)
    (J := fun b p => p.Placed org b) (fun b r b' p hb hcheck => ?_)
    (fun b p b' hb hp hfits hwrite => ?_) ts h (fun _ hq => absurd hq List.not_mem_nil) hts
  · obtain ⟨p', hp', heq⟩ := map_eq_ok.mp hcheck
    obtain ⟨rfl, rfl⟩ := Prod.ext_iff.mp heq
    exact ⟨hb, TreePlan.placed_of_check hb hp', fun _ hq => hq⟩
  · obtain ⟨htree, hlevels⟩ := TreePlan.treeOk_of_commit hb hp hfits hwrite
    exact ⟨htree, fun _ hq => hq.mono hlevels⟩

end

/-! ### Sample interleavings -/

attribute [local instance] asciiCasing

/-- A subcategory is created below giving, and another request is checked and committed between the
check and the commit of that. -/
def sampleTreeTurns (r : TreeRequest) : List (Turn TreeRequest) :=
  [.start (.create 1 { name := "Raffles", type := .expense, parentId := some 59 }), .start r,
    .advance 0, .advance 0, .advance 1, .advance 0]

/-- Another subcategory moves below giving in between. -/
theorem tree_of_sampleTreeTurns :
    TreeOk (treeSystem.sessions.interleave ⟨sampleBooks, []⟩
      (sampleTreeTurns (.move 1 8 59))).shared.categories 1 :=
  tree_of_interleaving (sampleBooks_freshlySeeded.restoring.1 1) (by decide +kernel)

/-- Giving becomes income in between, with the subcategories it has by then: the new one is an
expense below it. -/
theorem not_tree_of_sampleTreeTurns :
    TreeOk sampleBooks.categories 1 ∧
      ¬TreeOk (treeSystem.sessions.interleave ⟨sampleBooks, []⟩
        (sampleTreeTurns (.update 1 59 { type := some .income }))).shared.categories 1 := by
  refine ⟨sampleBooks_freshlySeeded.restoring.1 1, fun htree => ?_⟩
  have hchild : ((treeSystem.sessions.interleave ⟨sampleBooks, []⟩
      (sampleTreeTurns (.update 1 59 { type := some .income }))).shared.categories.get? 68).map
        (fun c => (c.orgId, c.parentId, c.type)) = some (1, some 59, .expense) := by
    decide +kernel
  have hmaster : ((treeSystem.sessions.interleave ⟨sampleBooks, []⟩
      (sampleTreeTurns (.update 1 59 { type := some .income }))).shared.categories.get? 59).map
        (·.type) = some .income := by
    decide +kernel
  obtain ⟨c, hc, hcrow⟩ := Option.map_eq_some_iff.mp hchild
  simp only [Prod.mk.injEq] at hcrow
  obtain ⟨hco, hpar, hctype⟩ := hcrow
  obtain ⟨m, hm, -, -, htype⟩ := htree 68 c hc hco 59 hpar
  rw [hm, Option.map_some, Option.some_inj, htype, hctype] at hmaster
  exact absurd hmaster (by decide)

end Pfv
