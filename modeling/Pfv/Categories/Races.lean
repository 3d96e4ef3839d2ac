import Pfv.Base.Session
import Pfv.Categories.Floor

/-!
# Concurrent deletes and type changes

A delete and a type change read the categories and run their guards in one step and write and commit
in another; they lock no rows in between. Two requests that are each safe alone can both pass the
guard on the floor and then together take the last row of a side. The floor stays when the guard of
each request, evaluated again on the categories it commits to, passes.

## Main definitions

* `FloorRequest`, `FloorPlan`, `floorSystem`: the requests in two steps.
* `FloorPlan.Guarded`: the guards of a plan, evaluated on the categories it is committed to.

## Main results

* `FloorPlan.hasFloor_of_commit`: a commit whose guards pass again keeps the floor.
* `floor_of_interleaving`: the floor after every interleaving of such commits.
-/

namespace Pfv

/-! ### The system -/

inductive FloorRequest
  | update (id : ℕ) (body : CategoryUpdate)
  | delete (id : ℕ) (target : Option ℕ)

inductive FloorPlan
  | update (p : UpdatePlan)
  | delete (p : DeletePlan)

/-- The deletes and type changes of one organisation. -/
def floorSystem (org : ℕ) : TwoStep Books FloorRequest FloorPlan ServiceError where
  check books
    | .update id body => (updateCategoryCheck books org id body).map fun p => (books, .update p)
    | .delete id target => (deleteCategoryCheck books org id target).map fun p => (books, .delete p)
  commit books
    | .update p => updateCategoryWrite books p
    | .delete p => deleteCategoryWrite books org p

/-- The guards of a delete pass on the category as it is committed, if it is still there: the guard
on the floor, and nothing hangs below it. -/
def DeletePlan.Guarded (books : Books) (org : ℕ) (p : DeletePlan) : Prop :=
  ∀ x ∈ books.category? p.id org,
    (assertMinFloorAfterDelete books org x).isOk = true ∧ childrenOf books org p.id = []

/-- The guard of a type change passes on the master as it is committed; the subcategories it is
carried to are still subcategories, and have none of their own. -/
def UpdatePlan.Guarded (books : Books) (org : ℕ) (p : UpdatePlan) : Prop :=
  ∀ t ∈ p.newType,
    (∀ x ∈ books.category? p.id org, x.parentId = none →
      (assertMinFloorAfterTypeChange books org x t).isOk = true) ∧
    ∀ i ∈ p.id :: p.childIds, ∀ c ∈ books.category? i org,
      (c.parentId = none → i = p.id) ∧ (c.parentId ≠ none → childrenOf books org i = [])

def FloorPlan.Guarded (org : ℕ) (books : Books) : FloorPlan → Prop
  | .update p => p.Guarded books org
  | .delete p => p.Guarded books org

instance (books : Books) (org : ℕ) (p : DeletePlan) : Decidable (p.Guarded books org) :=
  inferInstanceAs (Decidable (∀ x ∈ books.category? p.id org, _ ∧ _))

instance (books : Books) (org : ℕ) (p : UpdatePlan) : Decidable (p.Guarded books org) :=
  inferInstanceAs (Decidable (∀ t ∈ p.newType, (∀ x ∈ books.category? p.id org, _ → _) ∧
    ∀ i ∈ p.id :: p.childIds, ∀ c ∈ books.category? i org, (_ → _) ∧ (_ → _)))

instance (org : ℕ) (books : Books) : ∀ p : FloorPlan, Decidable (p.Guarded org books)
  | .update p => inferInstanceAs (Decidable (p.Guarded books org))
  | .delete p => inferInstanceAs (Decidable (p.Guarded books org))

section

variable {books books' : Books} {org : ℕ}

theorem eq_ok_of_isOk {ε : Type} {x : Except ε Unit} (h : x.isOk = true) : x = .ok () := by
  cases x with
  | error e => simp [Except.isOk, Except.toBool] at h
  | ok u => rfl

/-! ### Commits -/

/-- Deleting a category of no organisation, or of another one, keeps the floor. -/
theorem HasFloor.remove_other {x : ℕ} (h : HasFloor books.categories org)
    (hx : books.category? x org = none) (o : ℕ) :
    HasFloor (removeCategory books o x).categories org := by
  have hne : ∀ i c, books.categories.get? i = some c → c.orgId = org → i ≠ x := by
    rintro i c hc horg rfl
    rw [Db.category?_eq_some.mpr ⟨hc, horg⟩] at hx
    exact absurd hx (by simp)
  rw [hasFloor_iff] at h ⊢
  have hstays : ∀ i c, books.categories.get? i = some c → c.orgId = org → c.parentId ≠ some x →
      (removeCategory books o x).categories.get? i = some c := by
    intro i c hc horg hpar
    rw [get?_removeCategory, if_neg (hne i c hc horg), hc, Option.map_some, Category.orphan,
      if_neg hpar]
  -- A row above a subcategory may itself lose its parent; it keeps its organisation and type.
  have habove : ∀ i m, books.categories.get? i = some m → m.orgId = org →
      ∃ m', (removeCategory books o x).categories.get? i = some m' ∧ m'.orgId = org ∧
        m'.type = m.type := by
    intro i m hm horg
    refine ⟨m.orphan x,
      by rw [get?_removeCategory, if_neg (hne i m hm horg), hm, Option.map_some], ?_⟩
    unfold Category.orphan
    split_ifs
    · exact ⟨horg, rfl⟩
    · exact ⟨horg, rfl⟩
  intro e
  obtain ⟨⟨i, m, hm, hmorg, hroot, hmtype⟩, j, q, c, n, hc, hcorg, hpar, hn, hnorg, hntype⟩ := h e
  obtain ⟨n', hn', hnorg', hntype'⟩ := habove q n hn hnorg
  have hcpar : c.parentId ≠ some x := by
    rw [hpar]
    exact fun hqx => hne q n hn hnorg (Option.some_inj.mp hqx)
  exact ⟨⟨i, m, hstays i m hm hmorg (by simp [hroot]), hmorg, hroot, hmtype⟩, j, q, c, n',
    hstays j c hc hcorg hcpar, hcorg, hpar, hn', hnorg', hntype'.trans hntype⟩

/-- A delete whose guards pass again when it commits keeps the floor. -/
theorem DeletePlan.hasFloor_of_commit {p : DeletePlan} (h : HasFloor books.categories org)
    (hp : p.Guarded books org) (hwrite : deleteCategoryWrite books org p = .ok books') :
    HasFloor books'.categories org := by
  have hcats := migrate_categories p books org
  have hremoved : HasFloor (removeCategory books org p.id).categories org := by
    cases hx : books.category? p.id org with
    | none => exact h.remove_other hx org
    | some x =>
      have hid : x.id = p.id := Category.id_of_get? (Db.category?_eq_some.mp hx).1
      obtain ⟨hguard, hchildless⟩ := hp x hx
      rw [← hid] at hx hchildless ⊢
      exact h.remove hx (eq_ok_of_isOk hguard) hchildless
  rw [deleteCategoryWrite_ok hwrite]
  refine hremoved.of_rows fun i c hc _ => ⟨c, ?_, rfl, rfl, rfl⟩
  rw [get?_removeCategory] at hc ⊢
  rwa [hcats]

/-- A type change whose guards pass again when it commits keeps the floor. -/
theorem UpdatePlan.hasFloor_of_commit {p : UpdatePlan} (h : HasFloor books.categories org)
    (hp : p.Guarded books org) (hwrite : updateCategoryWrite books p = .ok books') :
    HasFloor books'.categories org := by
  obtain ⟨hf, rfl⟩ := updateCategoryWrite_ok hwrite
  have hwritten : ∀ c : Category, (p.apply c).type ≠ c.type →
      ∃ t, p.newType = some t ∧ t ≠ c.type ∧ c.id ∈ p.id :: p.childIds := by
    intro c hne
    rw [p.apply_type] at hne
    cases ht : p.newType with
    | none => simp [ht] at hne
    | some t =>
      split_ifs at hne with hid
      · exact ⟨t, rfl, by simpa [ht] using hne, List.mem_cons.mpr hid⟩
      · exact absurd rfl hne
  -- The one master that may change its type is the category itself.
  have hroots : ∀ c, books.categories.get? c.id = some c → c.orgId = org →
      (p.apply c).type ≠ c.type → (c.parentId = none ∧ c.id = p.id) ∨
        (c.parentId ≠ none ∧ childrenOf books org c.id = []) := by
    intro c hc hcorg hctype
    obtain ⟨t, ht, -, hmem⟩ := hwritten c hctype
    have hcrow := (hp t ht).2 c.id hmem c (Db.category?_eq_some.mpr ⟨hc, hcorg⟩)
    by_cases hroot : c.parentId = none
    · exact .inl ⟨hroot, hcrow.1 hroot⟩
    · exact .inr ⟨hroot, hcrow.2 hroot⟩
  by_cases hretyped : ∃ x, books.category? p.id org = some x ∧ x.parentId = none ∧
      (p.apply x).type ≠ x.type
  · obtain ⟨x, hx, hroot, hxtype⟩ := hretyped
    obtain ⟨t, ht, hne, -⟩ := hwritten x hxtype
    have hok := eq_ok_of_isOk ((hp t ht).1 x hx hroot)
    refine h.retype (x := some x) hf p.apply_parentId p.apply_orgId (fun y hy e htype => ?_)
      fun c hc hcorg hctype => ?_
    · rw [Option.mem_some_iff] at hy
      subst hy
      exact assertMinFloorAfterTypeChange_ok hok hne hroot htype
    · rcases hroots c hc hcorg hctype with ⟨-, hid⟩ | hsub
      · rw [hid, (Db.category?_eq_some.mp hx).1] at hc
        exact .inl hc
      · exact .inr hsub
  · refine h.retype (x := none) hf p.apply_parentId p.apply_orgId (fun y hy => by simp at hy)
      fun c hc hcorg hctype => ?_
    rcases hroots c hc hcorg hctype with ⟨hroot, hid⟩ | hsub
    · exact absurd ⟨c, Db.category?_eq_some.mpr ⟨hid ▸ hc, hcorg⟩, hroot, hctype⟩ hretyped
    · exact .inr hsub

/-- A commit whose guards pass again keeps the floor. -/
theorem FloorPlan.hasFloor_of_commit {p : FloorPlan} (h : HasFloor books.categories org)
    (hp : p.Guarded org books) (hwrite : (floorSystem org).commit books p = .ok books') :
    HasFloor books'.categories org := by
  cases p with
  | update p => exact UpdatePlan.hasFloor_of_commit h hp hwrite
  | delete p => exact DeletePlan.hasFloor_of_commit h hp hwrite

/-- The floor under concurrency: from every state that satisfies the floor, after every interleaving
of the steps of any number of deletes and type changes in which the guards of each pass again on the
categories it commits to, the floor holds. -/
theorem floor_of_interleaving {s : Running Books (Phase FloorRequest FloorPlan)}
    (hs : HasFloor s.shared.categories org) {ts : List (Turn FloorRequest)}
    (hts : (floorSystem org).sessions.Respects
      (TwoStep.OnCommit fun books p => p.Guarded org books) s ts) :
    HasFloor ((floorSystem org).sessions.interleave s ts).shared.categories org := by
  refine TwoStep.interleave_invariant (I := fun b : Books => HasFloor b.categories org)
    (fun b r b' p hb hcheck => ?_) (fun b p b' hb hp hwrite => p.hasFloor_of_commit hb hp hwrite)
    ts hs hts
  have hsame : b' = b := by
    cases r with
    | update id body =>
      obtain ⟨p', -, heq⟩ := map_eq_ok.mp hcheck
      exact (Prod.ext_iff.mp heq).1.symm
    | delete id target =>
      obtain ⟨p', -, heq⟩ := map_eq_ok.mp hcheck
      exact (Prod.ext_iff.mp heq).1.symm
  exact hsame ▸ hb

end

/-! ### Sample interleavings -/

attribute [local instance] asciiCasing

/-- Two requests are checked one after the other and then committed one after the other. -/
def sampleTurns (r r' : FloorRequest) : List (Turn FloorRequest) :=
  [.start r, .start r', .advance 0, .advance 0, .advance 0, .advance 0]

/-- Income has five subcategories, and two of them are deleted at once. -/
theorem floor_of_sampleTurns :
    HasFloor ((floorSystem 1).sessions.interleave ⟨sampleBooks, []⟩
      (sampleTurns (.delete 2 none) (.delete 3 none))).shared.categories 1 :=
  floor_of_interleaving (by decide +kernel) (by decide +kernel)

/-- Income has two subcategories left. -/
def sampleTwoSubs : Books :=
  serveAll CategoryRequest.step sampleBooks [.delete 1 4 none, .delete 1 5 none, .delete 1 6 none]

/-- Deleting both at once leaves income without subcategories. -/
theorem not_floor_of_sampleTurns :
    HasFloor sampleTwoSubs.categories 1 ∧
      ¬HasFloor ((floorSystem 1).sessions.interleave ⟨sampleTwoSubs, []⟩
        (sampleTurns (.delete 2 none) (.delete 3 none))).shared.categories 1 := by
  constructor
  · decide +kernel
  · decide +kernel

end Pfv
