import Pfv.Services.CategoryErrors
import Pfv.Categories.Tree
import Pfv.Ledger.Requests

/-!
# What structured category errors carry

The service joins identifiers and names with colons, and the router takes the text apart again. The
identifiers always come back. A name comes back from a collision unless the separator can be read in
it or across its end, and the children of a master come back unless one of their names has a colon.
A collision within a batch names the subcategory that was refused under the identifier of the one
moved before it.

## Main definitions

* `IntactName`: a name that a collision text carries.
* `Collision`: a refused move with the child that has its name, a sibling or an earlier subcategory
  of the batch.

## Main results

* `nameCollisionResponse_iff`, `hasChildrenResponse_iff`: when a text is decoded to what was
  encoded.
* `resolveForMove_conflict`, `resolveMoves_conflict`, `delete_hasChildren`: where such a text comes
  from.
* `structuredErrors_iff`: the errors of the service and their answers.
-/

namespace Pfv

/-! ### Collision texts -/

/-- A name in which the separator of a collision text is read neither inside nor across its end. -/
def IntactName (name : String) : Prop :=
  ¬[':', ':'] <:+: name.toList ∧ ¬[':'] <:+ name.toList

instance (name : String) : Decidable (IntactName name) :=
  inferInstanceAs (Decidable (_ ∧ _))

/-- The text of a collision. -/
def collisionText (target child : ℕ) (name normalized : String) : String :=
  "name_collision::" ++ toString target ++ "::" ++ toString child ++ "::" ++ name ++ "::" ++
    normalized

theorem toList_toString (n : ℕ) : (toString n).toList = Nat.toDigits 10 n :=
  Nat.toList_repr

/-- The text of a number has no separator. -/
theorem notMem_toString (n : ℕ) : ':' ∉ (toString n).toList ∧ '|' ∉ (toString n).toList := by
  have hplain : ∀ c ∈ (toString n).toList, c ≠ ':' ∧ c ≠ '|' := fun c hc =>
    (plain_of_isDigit (Nat.isDigit_of_mem_toDigits (by decide) (by decide)
      (toList_toString n ▸ hc))).2.2.2.2
  exact ⟨fun h => (hplain _ h).1 rfl, fun h => (hplain _ h).2 rfl⟩

/-- A collision text is decoded to what was encoded, with a given name, if and only if that name was
encoded and is intact. -/
theorem nameCollisionResponse_iff {target child : ℕ} {name name' normalized : String} :
    nameCollisionResponse (collisionText target child name normalized) =
        some ⟨target, child, name', normalized⟩ ↔ IntactName name ∧ name' = name := by
  have hsep : "::".toList = [':', ':'] := by simp
  have htext : (collisionText target child name normalized).toList =
      "name_collision".toList ++ ([':', ':'] ++ ((toString target).toList ++ ([':', ':'] ++
        ((toString child).toList ++ ([':', ':'] ++ (name.toList ++ ([':', ':'] ++
          normalized.toList))))))) := by
    have htag : "name_collision::".toList = "name_collision".toList ++ [':', ':'] := by simp
    unfold collisionText
    repeat rw [String.toList_append]
    rw [htag, hsep]
    repeat rw [List.append_assoc]
  obtain ⟨⟨a, b⟩, hab⟩ := Option.isSome_iff_exists.mp
    (isSome_cutAt_append [':', ':'] name.toList normalized.toList)
  have hparts : splitMax [':', ':'] 4 (collisionText target child name normalized).toList =
      ["name_collision".toList, (toString target).toList, (toString child).toList, a, b] := by
    have hhead : ':' ∉ "name_collision".toList := by simp
    rw [htext, splitMax_of_cutAt (cutAt_append_of_notMem hhead _),
      splitMax_of_cutAt (cutAt_append_of_notMem (notMem_toString target).1 _),
      splitMax_of_cutAt (cutAt_append_of_notMem (notMem_toString child).1 _),
      splitMax_of_cutAt hab, splitMax]
  have hresponse : nameCollisionResponse (collisionText target child name normalized) =
      some ⟨target, child, String.ofList a, String.ofList b⟩ := by
    unfold nameCollisionResponse
    rw [hsep, hparts]
    simp only [List.map_cons, List.map_nil, String.ofList_toList, intOfString_toString]
    rfl
  rw [hresponse, Option.some.injEq, NameCollision.mk.injEq]
  have hjoin := append_of_cutAt hab
  constructor
  · rintro ⟨-, -, hname, hnormalized⟩
    -- The rest after the cut is the normalised name, so the cut is where the two were joined.
    have hb : b = normalized.toList := by rw [← hnormalized, String.toList_ofList]
    have ha : a = name.toList := by
      rw [hb] at hjoin
      exact (List.append_cancel_right hjoin).symm
    rw [ha, hb] at hab
    exact ⟨cutAt_pair_iff.mp hab, by rw [← hname, ha, String.ofList_toList]⟩
  · rintro ⟨hintact, rfl⟩
    rw [cutAt_pair_iff.mpr hintact, Option.some.injEq, Prod.mk.injEq] at hab
    exact ⟨rfl, rfl, by rw [← hab.1, String.ofList_toList], by rw [← hab.2, String.ofList_toList]⟩

/-! ### Texts with children -/

/-- The text of a refused delete. -/
def childrenText (children : List Category) : String :=
  "has_children::" ++ String.intercalate ":" (children.map fun c => toString c.id ++ "|" ++ c.name)

theorem childEntry_eq (c : Category) :
    childEntry (toString c.id ++ "|" ++ c.name).toList = some ((c.id : ℤ), c.name) := by
  have hcut : cutAt ['|'] ((toString c.id ++ "|" ++ c.name).toList) =
      some ((toString c.id).toList, c.name.toList) := by
    have hbar : "|".toList = ['|'] := by simp
    rw [String.toList_append, String.toList_append, hbar, List.append_assoc]
    exact cutAt_append_of_notMem (notMem_toString c.id).2 _
  unfold childEntry
  rw [hcut]
  simp only [Option.bind_eq_bind, Option.bind_some, Option.pure_def, String.ofList_toList,
    intOfString_toString]

theorem notMem_of_childEntry {entry : List Char} {cid : ℤ} {name : String} (h : ':' ∉ entry)
    (hentry : childEntry entry = some (cid, name)) : ':' ∉ name.toList := by
  unfold childEntry at hentry
  simp only [Option.bind_eq_bind, Option.bind_eq_some_iff, Prod.exists, Option.pure_def,
    Option.some.injEq, Prod.mk.injEq] at hentry
  obtain ⟨a, b, hcut, -, -, -, rfl⟩ := hentry
  intro hmem
  rw [append_of_cutAt hcut] at h
  rw [String.toList_ofList] at hmem
  exact h (List.mem_append_right a (List.mem_append_right ['|'] hmem))

/-- The children of a refused delete are decoded to what was encoded if and only if none of their
names has a colon. -/
theorem hasChildrenResponse_iff {children : List Category} (hne : children ≠ []) :
    hasChildrenResponse (childrenText children) =
        ⟨children.map fun c => (c.id : ℤ), children.map (·.name)⟩ ↔
      ∀ c ∈ children, ':' ∉ c.name.toList := by
  set entries := children.map fun c => (toString c.id ++ "|" ++ c.name).toList with hentries
  have hpayload : splitMax "::".toList 1 (childrenText children).toList =
      ["has_children".toList, List.intercalate [':'] entries] := by
    have htext : (childrenText children).toList =
        "has_children".toList ++ ([':', ':'] ++ List.intercalate [':'] entries) := by
      have htag : "has_children::".toList = "has_children".toList ++ [':', ':'] := by simp
      have hcolon : ":".toList = [':'] := by simp
      rw [childrenText, String.toList_append, String.toList_intercalate, htag, hcolon, List.map_map,
        List.append_assoc]
      rfl
    have hsep : "::".toList = [':', ':'] := by simp
    have hhead : ':' ∉ "has_children".toList := by simp
    rw [htext, hsep]
    exact splitMax_of_cutAt (cutAt_append_of_notMem hhead _)
  have hresponse : hasChildrenResponse (childrenText children) =
      ⟨(((List.intercalate [':'] entries).splitOn ':').filterMap childEntry).map Prod.fst,
        (((List.intercalate [':'] entries).splitOn ':').filterMap childEntry).map Prod.snd⟩ := by
    unfold hasChildrenResponse
    rw [hpayload]
  rw [hresponse, HasChildren.mk.injEq]
  constructor
  · rintro ⟨-, hnames⟩ c hc
    -- A decoded name comes from a piece between colons.
    have hmem : c.name ∈ children.map (·.name) := List.mem_map_of_mem hc
    rw [← hnames, List.mem_map] at hmem
    obtain ⟨⟨cid, name⟩, hmem, hname⟩ := hmem
    obtain ⟨entry, hentry, hdecoded⟩ := List.mem_filterMap.mp hmem
    have hname : name = c.name := hname
    exact hname ▸ notMem_of_childEntry (notMem_of_mem_splitOn hentry) hdecoded
  · intro hcolon
    have hsplit : (List.intercalate [':'] entries).splitOn ':' = entries := by
      refine List.splitOn_intercalate ':' (fun entry hentry => ?_) (by simpa [hentries] using hne)
      obtain ⟨c, hc, rfl⟩ := List.mem_map.mp hentry
      have hbar : ':' ∉ "|".toList := by simp
      rw [String.toList_append, String.toList_append, List.mem_append, List.mem_append, not_or,
        not_or]
      exact ⟨⟨(notMem_toString c.id).1, hbar⟩, hcolon c hc⟩
    have hdecoded : entries.filterMap childEntry = children.map fun c => ((c.id : ℤ), c.name) := by
      rw [hentries, List.filterMap_map, ← List.filterMap_eq_map]
      exact List.filterMap_congr fun c _ => childEntry_eq c
    rw [hsplit, hdecoded, List.map_map, List.map_map]
    exact ⟨rfl, rfl⟩

/-! ### Where the texts come from -/

/-- A refused move: the subcategory, the target, and the child that has its name. -/
structure Collision where
  sub : Category
  target : Category
  child : Category

namespace Collision

/-- What the answer to a collision has to carry. -/
def fields [Casing] (c : Collision) : NameCollision where
  targetParentId := c.target.id
  conflictingChildId := c.child.id
  conflictingChildName := c.child.name
  normalizedName := normalizeCategoryName c.sub.name

/-- The move names a subcategory and a target of the organisation. -/
def Of (c : Collision) (books : Books) (org : ℕ) (move : BatchMoveItem) : Prop :=
  books.category? move.subcategoryId org = some c.sub ∧
    books.category? move.targetParentId org = some c.target

/-- The child is the first other subcategory of the target with the name. -/
def WithSibling [Casing] (c : Collision) (books : Books) (org : ℕ) : Prop :=
  (childrenOf books org c.target.id).find? (fun s =>
    s.id ≠ c.sub.id ∧ normalizeCategoryName s.name = normalizeCategoryName c.sub.name) =
      some c.child

/-- The child is the subcategory of an earlier move to the target, with the name. -/
def WithEarlier [Casing] (c : Collision) (books : Books) (org : ℕ) (done : List BatchMoveItem) :
    Prop :=
  normalizeCategoryName c.child.name = normalizeCategoryName c.sub.name ∧
    ∃ move ∈ done, books.category? move.subcategoryId org = some c.child ∧
      books.category? move.targetParentId org = some c.target

end Collision

section

variable {books : Books} {org : ℕ}

/-- The conflicts of a move are its collisions with a sibling. -/
theorem resolveForMove_conflict [Casing] {move : BatchMoveItem} {detail : String}
    (h : resolveForMove books org move.subcategoryId move.targetParentId =
      .error (.conflict detail)) :
    ∃ c : Collision, c.Of books org move ∧ c.WithSibling books org ∧
      detail = collisionText c.target.id c.child.id c.child.name
        (normalizeCategoryName c.sub.name) := by
  unfold resolveForMove at h
  simp only [bind_eq_error, orRaise_eq_error, orRaise_eq_ok, raiseIf_eq_error, reduceCtorEq,
    and_false, false_or] at h
  obtain ⟨sub, hsub, -, -, target, htarget, -, -, -, -, -, -, -, -, h⟩ := h
  rcases h with h | ⟨-, -, h⟩
  · unfold checkNameCollision at h
    split at h
    · cases h
    · next child hchild =>
      cases h
      exact ⟨⟨sub, target, child⟩, ⟨hsub, htarget⟩, hchild, rfl⟩
  · cases h

/-- A move to a master of the type that has a child with the name is refused with their text. -/
theorem Collision.WithSibling.resolveForMove [Casing] {c : Collision} (h : c.WithSibling books org)
    {move : BatchMoveItem} (hof : c.Of books org move)
    (hsource : ((c.sub.parentId.bind fun p => books.category? p org)).isSome = true)
    (htarget : c.target.parentId = none ∧ c.sub.parentId ≠ some c.target.id ∧
      c.sub.type = c.target.type) :
    resolveForMove books org move.subcategoryId move.targetParentId =
      .error (.conflict (collisionText c.target.id c.child.id c.child.name
        (normalizeCategoryName c.sub.name))) := by
  obtain ⟨source, hsource⟩ := Option.isSome_iff_exists.mp hsource
  have hsub : c.sub.parentId ≠ none := fun hnone => by
    rw [hnone, Option.bind_none] at hsource
    cases hsource
  have hcheck : checkNameCollision books org c.sub c.target = .error (.conflict
      (collisionText c.target.id c.child.id c.child.name (normalizeCategoryName c.sub.name))) := by
    have hfind : List.find? _ _ = _ := h
    rw [checkNameCollision, hfind]
    rfl
  unfold Pfv.resolveForMove
  rw [bind_of_ok (orRaise_eq_ok.mpr hof.1), bind_of_ok (raiseIf_of_not hsub),
    bind_of_ok (orRaise_eq_ok.mpr hof.2), bind_of_ok (raiseIf_of_not (not_not.mpr htarget.1)),
    bind_of_ok (raiseIf_of_not (Ne.symm htarget.2.1)),
    bind_of_ok (raiseIf_of_not (not_not.mpr htarget.2.2)), bind_of_ok (orRaise_eq_ok.mpr hsource),
    bind_of_error hcheck]

theorem of_resolveForMove [Casing] {move : BatchMoveItem} {sub target : Category}
    (h : resolveForMove books org move.subcategoryId move.targetParentId = .ok (sub, target)) :
    books.category? move.subcategoryId org = some sub ∧
      books.category? move.targetParentId org = some target := by
  unfold resolveForMove at h
  simp only [↓unit_bind_eq_ok, bind_eq_ok, orRaise_eq_ok, pure_eq_ok, Prod.mk.injEq] at h
  obtain ⟨s, hs, -, t, ht, -, -, -, -, -, -, rfl, rfl⟩ := h
  exact ⟨hs, ht⟩

/-- Equal identifiers belong to one category of the organisation. -/
theorem category?_eq_of_id {i j : ℕ} {c d : Category} (hc : books.category? i org = some c)
    (hd : books.category? j org = some d) (hid : c.id = d.id) : c = d := by
  obtain ⟨hc, -⟩ := Db.category?_eq_some.mp hc
  obtain ⟨hd, -⟩ := Db.category?_eq_some.mp hd
  rw [← Category.id_of_get? hc, hid, Category.id_of_get? hd, hd] at hc
  exact (Option.some.inj hc).symm

/-- What a batch has seen: the moves done, by master, name and subcategory. -/
def SeenFrom [Casing] (books : Books) (org : ℕ) (seen : List (ℕ × String × ℕ))
    (done : List BatchMoveItem) :
    Prop :=
  ∀ s ∈ seen, ∃ move ∈ done, ∃ sub target, books.category? move.subcategoryId org = some sub ∧
    books.category? move.targetParentId org = some target ∧
      s = (target.id, normalizeCategoryName sub.name, sub.id)

/-- The conflicts of a batch are the collisions of its moves, with a sibling or with an earlier
move; in the second case the text names the subcategory that was refused. -/
theorem resolveMoves_conflict [Casing] {moves done : List BatchMoveItem}
    {seen : List (ℕ × String × ℕ)} {detail : String} (hseen : SeenFrom books org seen done)
    (h : resolveMoves books org moves seen = .error (.conflict detail)) :
    ∃ before move after, moves = before ++ move :: after ∧ ∃ c : Collision, c.Of books org move ∧
      (c.WithSibling books org ∧ detail = collisionText c.target.id c.child.id c.child.name
          (normalizeCategoryName c.sub.name) ∨
        c.WithEarlier books org (done ++ before) ∧ detail = collisionText c.target.id c.child.id
          c.sub.name (normalizeCategoryName c.sub.name)) := by
  induction moves generalizing seen done with
  | nil => cases h
  | cons move moves ih =>
    unfold resolveMoves at h
    rcases bind_eq_error.mp h with hmove | ⟨⟨sub, target⟩, hmove, h⟩
    · obtain ⟨c, hof, hsibling, hdetail⟩ := resolveForMove_conflict hmove
      exact ⟨[], move, moves, rfl, c, hof, .inl ⟨hsibling, hdetail⟩⟩
    · obtain ⟨hsub, htarget⟩ := of_resolveForMove hmove
      rcases bind_eq_error.mp h with hcheck | ⟨-, -, h⟩
      · -- The name is among those seen.
        unfold checkBatchCollision at hcheck
        split at hcheck
        · cases hcheck
        · next s hfind =>
          obtain ⟨earlier, hearlier, child, target', hchild, htarget', rfl⟩ :=
            hseen s (List.mem_of_find?_eq_some hfind)
          have hs := List.find?_some hfind
          simp only [decide_eq_true_eq] at hs
          cases hcheck
          refine ⟨[], move, moves, rfl, ⟨sub, target, child⟩, ⟨hsub, htarget⟩,
            .inr ⟨⟨hs.2, earlier, by simpa using hearlier, hchild, ?_⟩, rfl⟩⟩
          rw [htarget', category?_eq_of_id htarget' htarget hs.1]
      · rcases bind_eq_error.mp h with hrest | ⟨rest, -, h⟩
        · have hseen' : SeenFrom books org
              ((target.id, normalizeCategoryName sub.name, sub.id) :: seen) (done ++ [move]) := by
            intro s hs
            rcases List.mem_cons.mp hs with rfl | hs
            · exact ⟨move, by simp, sub, target, hsub, htarget, rfl⟩
            · obtain ⟨earlier, hearlier, hrow⟩ := hseen s hs
              exact ⟨earlier, List.mem_append_left _ hearlier, hrow⟩
          obtain ⟨before, move', after, rfl, c, hof, hcase⟩ := ih hseen' hrest
          refine ⟨move :: before, move', after, rfl, c, hof, ?_⟩
          rwa [List.append_assoc, List.singleton_append] at hcase
        · cases h

theorem assertMinFloorAfterDelete_ne_error {cat : Category} {e : ServiceError}
    (he : ServiceError.conflict "last_in_type" ≠ e) :
    assertMinFloorAfterDelete books org cat ≠ .error e := by
  unfold assertMinFloorAfterDelete
  cases cat.parentId with
  | none =>
    cases cat.type with
    | income => exact bind_ne_error (raiseIf_ne_error he) fun _ _ => raiseIf_ne_error he
    | expense => exact bind_ne_error (raiseIf_ne_error he) fun _ _ => raiseIf_ne_error he
    | both => simp [pure, Except.pure]
  | some parentId =>
    dsimp only
    cases books.category? parentId org with
    | none => simp [pure, Except.pure]
    | some master =>
      dsimp only
      cases master.type with
      | income => exact raiseIf_ne_error he
      | expense => exact raiseIf_ne_error he
      | both => simp [pure, Except.pure]

/-- Past the floor a delete raises no conflict. -/
theorem migrationTarget_ne_conflict {cat : Category} {target : Option ℕ} {b : DependentBreakdown}
    {detail : String} : migrationTarget books org cat target b ≠ .error (.conflict detail) := by
  unfold migrationTarget
  refine bind_ne_error (orRaise_ne_error (by simp)) fun _ _ => ?_
  refine bind_ne_error (raiseIf_ne_error (by simp)) fun _ _ => ?_
  refine bind_ne_error (orRaise_ne_error (by simp)) fun _ _ => ?_
  refine bind_ne_error (raiseIf_ne_error (by simp)) fun _ _ => ?_
  refine bind_ne_error (raiseIf_ne_error (by simp [typeMismatch])) fun _ _ => ?_
  simp [pure, Except.pure]

theorem deleteCategoryWrite_ne_conflict {p : DeletePlan} {detail : String} :
    deleteCategoryWrite books org p ≠ .error (.conflict detail) := by
  unfold deleteCategoryWrite
  refine bind_ne_error (raiseIf_ne_error (by simp)) fun _ _ => ?_
  refine bind_ne_error (raiseIf_ne_error (by simp)) fun _ _ => ?_
  simp [pure, Except.pure]

/-- A delete is refused with the children of its master, and with no other text of that form. -/
theorem delete_hasChildren {id : ℕ} {target : Option ℕ} {detail : String}
    (h : deleteCategoryWithMigration books org id target = .error (.conflict detail))
    (htag : "has_children::".toList <+: detail.toList) :
    ∃ cat, books.category? id org = some cat ∧ cat.parentId = none ∧
      childrenOf books org cat.id ≠ [] ∧ detail = childrenText (childrenOf books org cat.id) := by
  have hother : ServiceError.conflict "last_in_type" ≠ .conflict detail := by
    intro heq
    rw [ServiceError.conflict.injEq] at heq
    rw [← heq] at htag
    revert htag
    decide +kernel
  unfold deleteCategoryWithMigration at h
  rcases bind_eq_error.mp h with hcheck | ⟨p, -, hwrite⟩
  · unfold deleteCategoryCheck at hcheck
    rcases bind_eq_error.mp hcheck with hcat | ⟨cat, hcat, hcheck⟩
    · cases (orRaise_eq_error.mp hcat).2
    · rcases bind_eq_error.mp hcheck with hraise | ⟨-, -, hcheck⟩
      · obtain ⟨⟨hmaster, hne⟩, hdetail⟩ := raiseIf_eq_error.mp hraise
        cases hdetail
        exact ⟨cat, orRaise_eq_ok.mp hcat, hmaster, hne, rfl⟩
      · rcases bind_eq_error.mp hcheck with hfloor | ⟨-, -, hcheck⟩
        · exact absurd hfloor (assertMinFloorAfterDelete_ne_error hother)
        · dsimp only at hcheck
          split_ifs at hcheck
          · cases hcheck
          · rcases bind_eq_error.mp hcheck with htarget | ⟨_, -, hpure⟩
            · exact absurd htarget migrationTarget_ne_conflict
            · cases hpure
  · exact absurd hwrite deleteCategoryWrite_ne_conflict

/-! ### The answers -/

/-- The structured errors of the categories and their answers, for every tree: the answer to a move
carries the target, the sibling with its name and the normalised name if and only if that name is
intact; so does the answer to a batch, if moreover the subcategory of an earlier move it collides
with is spelled the same; and the answer to a delete carries all children, in order, if and only if
none of their names has a colon. -/
theorem structuredErrors_iff [Casing] (books : Books) (org : ℕ) :
    (∀ move detail, resolveForMove books org move.subcategoryId move.targetParentId =
        .error (.conflict detail) → ∃ c : Collision, c.Of books org move ∧ c.WithSibling books org ∧
      (nameCollisionResponse detail = some c.fields ↔ IntactName c.child.name)) ∧
    (∀ moves detail, batchMoveSubcategories books org moves = .error (.conflict detail) →
      ∃ before move after, moves = before ++ move :: after ∧ ∃ c : Collision, c.Of books org move ∧
        (c.WithSibling books org ∧
            (nameCollisionResponse detail = some c.fields ↔ IntactName c.child.name) ∨
          c.WithEarlier books org before ∧ (nameCollisionResponse detail = some c.fields ↔
            IntactName c.child.name ∧ c.child.name = c.sub.name))) ∧
    (∀ id target detail, deleteCategoryWithMigration books org id target =
        .error (.conflict detail) → "has_children::".toList <+: detail.toList →
      ∃ cat, books.category? id org = some cat ∧
        (hasChildrenResponse detail = ⟨(childrenOf books org cat.id).map fun c => (c.id : ℤ),
            (childrenOf books org cat.id).map (·.name)⟩ ↔
          ∀ c ∈ childrenOf books org cat.id, ':' ∉ c.name.toList)) := by
  refine ⟨fun move detail h => ?_, fun moves detail h => ?_, fun id target detail h htag => ?_⟩
  · obtain ⟨c, hof, hsibling, rfl⟩ := resolveForMove_conflict h
    exact ⟨c, hof, hsibling, nameCollisionResponse_iff.trans (and_iff_left rfl)⟩
  · unfold batchMoveSubcategories at h
    rcases bind_eq_error.mp h with hempty | ⟨-, -, h⟩
    · cases (raiseIf_eq_error.mp hempty).2
    · rcases bind_eq_error.mp h with hmoves | ⟨_, -, hpure⟩
      · obtain ⟨before, move, after, rfl, c, hof, hcase⟩ :=
          @resolveMoves_conflict books org _ _ [] [] detail
            (fun _ hs => absurd hs List.not_mem_nil) hmoves
        refine ⟨before, move, after, rfl, c, hof, ?_⟩
        rcases hcase with ⟨hsibling, rfl⟩ | ⟨hearlier, rfl⟩
        · exact .inl ⟨hsibling, nameCollisionResponse_iff.trans (and_iff_left rfl)⟩
        · refine .inr ⟨hearlier, nameCollisionResponse_iff.trans ?_⟩
          constructor
          · rintro ⟨hintact, hname⟩
            exact ⟨hname ▸ hintact, hname⟩
          · rintro ⟨hintact, hname⟩
            exact ⟨hname ▸ hintact, hname⟩
      · cases hpure
  · obtain ⟨cat, hcat, -, hne, rfl⟩ := delete_hasChildren h htag
    exact ⟨cat, hcat, hasChildrenResponse_iff hne⟩

end

/-! ### A sample tree -/

attribute [local instance] asciiCasing

/-- Two masters with a subcategory each, named as given. -/
def sampleTree (name name' : String) : Books where
  toDb :=
    { sampleDb with
      categories := ⟨[{ id := 1, orgId := 1, name := "Home" },
          { id := 2, orgId := 1, name := "Car" },
          { id := 3, orgId := 1, parentId := some 1, name := name },
          { id := 4, orgId := 1, parentId := some 2, name := name' }], 5, by simp [Row.id],
        by simp [Row.id]⟩ }
  categoryRules := .empty
  budgets := .empty
  forecastPlans := .empty
  forecastPlanItems := .empty

/-- The collision of the first subcategory with the second. -/
def sampleCollision (name name' : String) : Collision where
  sub := { id := 3, orgId := 1, parentId := some 1, name := name }
  target := { id := 2, orgId := 1, name := "Car" }
  child := { id := 4, orgId := 1, parentId := some 2, name := name' }

theorem sampleCollision_of (name name' : String) :
    (sampleCollision name name').Of (sampleTree name name') 1 ⟨3, 2⟩ :=
  ⟨rfl, rfl⟩

/-- The text that refuses the move when the names are equal. -/
theorem sampleTree_conflict {name name' : String}
    (h : normalizeCategoryName name' = normalizeCategoryName name) :
    resolveForMove (sampleTree name name') 1 3 2 =
      .error (.conflict (collisionText 2 4 name' (normalizeCategoryName name))) := by
  have hsibling : (sampleCollision name name').WithSibling (sampleTree name name') 1 := by
    have hchildren :
        childrenOf (sampleTree name name') 1 2 = [(sampleCollision name name').child] :=
      rfl
    show List.find? _ (childrenOf (sampleTree name name') 1 2) = _
    rw [hchildren]
    exact List.find?_cons_of_pos (decide_eq_true ⟨by simp [sampleCollision], h⟩)
  exact hsibling.resolveForMove (sampleCollision_of name name') rfl
    ⟨rfl, by simp [sampleCollision], rfl⟩

/-- Names with the separator are cut, and a name with a colon is lost. -/
theorem sampleTree_decodes_wrong :
    (∃ detail, resolveForMove (sampleTree "A::B" "a::b") 1 3 2 = .error (.conflict detail) ∧
      nameCollisionResponse detail = some ⟨2, 4, "a", "b::a::b"⟩) ∧
    ∃ detail, deleteCategoryWithMigration (sampleTree "Rent" "Tax: road") 1 2 none =
        .error (.conflict detail) ∧ hasChildrenResponse detail = ⟨[4], ["Tax"]⟩ := by
  have hlower : normalizeCategoryName "a::b" = "a::b" := by decide +kernel
  have hupper : normalizeCategoryName "A::B" = "a::b" := by decide +kernel
  have hdelete : deleteCategoryCheck (sampleTree "Rent" "Tax: road") 1 2 none =
      .error (.conflict "has_children::4|Tax: road") := by
    decide +kernel
  refine ⟨⟨_, sampleTree_conflict (hlower.trans hupper.symm), ?_⟩, _, bind_of_error hdelete, ?_⟩
  · rw [hupper]
    decide +kernel
  · decide +kernel

/-- Names without colons come back. -/
theorem sampleTree_decodes :
    (∃ detail, resolveForMove (sampleTree "Fuel" "fuel") 1 3 2 = .error (.conflict detail) ∧
      ∃ c : Collision, c.Of (sampleTree "Fuel" "fuel") 1 ⟨3, 2⟩ ∧
        nameCollisionResponse detail = some c.fields) ∧
    ∃ cat, (sampleTree "Fuel" "fuel").category? 2 1 = some cat ∧
      hasChildrenResponse "has_children::4|fuel" =
        ⟨(childrenOf (sampleTree "Fuel" "fuel") 1 cat.id).map fun c => (c.id : ℤ),
          (childrenOf (sampleTree "Fuel" "fuel") 1 cat.id).map (·.name)⟩ := by
  have hplain : ∀ c ∈ (sampleTree "Fuel" "fuel").categories.rows,
      IntactName c.name ∧ ':' ∉ c.name.toList := by
    decide +kernel
  have hlower : normalizeCategoryName "fuel" = "fuel" := by decide +kernel
  have hupper : normalizeCategoryName "Fuel" = "fuel" := by decide +kernel
  have hmoved := sampleTree_conflict (hlower.trans hupper.symm)
  have hcheck : deleteCategoryCheck (sampleTree "Fuel" "fuel") 1 2 none =
      .error (.conflict "has_children::4|fuel") := by
    decide +kernel
  obtain ⟨hmove, -, hdelete⟩ := structuredErrors_iff (sampleTree "Fuel" "fuel") 1
  obtain ⟨c, hof, hfound, hiff⟩ := hmove ⟨3, 2⟩ _ hmoved
  obtain ⟨cat, hcat, hiff'⟩ :=
    hdelete 2 none "has_children::4|fuel" (bind_of_error hcheck) (by decide +kernel)
  have hchild := List.mem_of_mem_filter (List.mem_of_find?_eq_some hfound)
  exact ⟨⟨_, hmoved, c, hof, hiff.mpr (hplain _ hchild).1⟩, cat, hcat,
    hiff'.mpr fun c hc => (hplain c (List.mem_of_mem_filter hc)).2⟩

end Pfv
