import Pfv.Categories.Tree
import Pfv.Ledger.Requests

/-!
# A batch of moves against single moves

A batch is checked move by move against the tree before it, and against the names that its earlier
moves bring under each master. Its moves can then be done one by one: a subcategory stays one and a
master stays one, a second move of one subcategory to one target would repeat a name, and so would
two moves that bring equal names together.

## Main definitions

* `lastMaster`, `rehang`: where a list of moves leaves a category.
* `CanMove`: what a single move checks.
* `NameIsFree`: a subcategory shares its normalised name with no sibling.

## Main results

* `resolveForMove_eq_ok`: when a move is allowed.
* `CanMove.after`: a move stays allowed while moves with other names and targets are done.
* `foldlM_moveSubcategory`: the moves of a batch done one by one.
* `batchMove_refines`: the batch against the single moves.
-/

namespace Pfv

/-! ### Where moves leave a category -/

/-- The target of the last move that names a category. -/
def lastMaster (moves : List BatchMoveItem) (id : ℕ) : Option ℕ :=
  ((moves.filter (·.subcategoryId = id)).getLast?).map (·.targetParentId)

/-- A category of an organisation under the target of its last move. -/
def rehang (org : ℕ) (moves : List BatchMoveItem) (c : Category) : Category :=
  if c.orgId = org then { c with parentId := (lastMaster moves c.id).or c.parentId } else c

@[simp] theorem rehang_id (org : ℕ) (moves : List BatchMoveItem) (c : Category) :
    (rehang org moves c).id = c.id := by
  unfold rehang
  split_ifs <;> rfl

/-- The tree with every named category under the target of its last move. -/
def rehung (books : Books) (org : ℕ) (moves : List BatchMoveItem) : Books :=
  { books with categories := books.categories.mapRows (rehang org moves) (rehang_id org moves) }

section

variable {books books' : Books} {org : ℕ} {moves done : List BatchMoveItem} {move : BatchMoveItem}
  {c sub target : Category}

@[simp] theorem lastMaster_nil (id : ℕ) : lastMaster [] id = none := rfl

theorem lastMaster_append (done : List BatchMoveItem) (move : BatchMoveItem) (id : ℕ) :
    lastMaster (done ++ [move]) id =
      if move.subcategoryId = id then some move.targetParentId else lastMaster done id := by
  unfold lastMaster
  rw [List.filter_append]
  by_cases hid : move.subcategoryId = id
  · simp [hid]
  · simp [hid]

/-- The target of a category's last move is that of one of its moves. -/
theorem mem_of_lastMaster {id t : ℕ} (h : lastMaster moves id = some t) :
    ∃ m ∈ moves, m.subcategoryId = id ∧ m.targetParentId = t := by
  obtain ⟨m, hm, rfl⟩ := Option.map_eq_some_iff.mp h
  have hmem := List.mem_filter.mp (List.mem_of_getLast? hm)
  exact ⟨m, hmem.1, of_decide_eq_true hmem.2, rfl⟩

theorem lastMaster_eq_none_iff {id : ℕ} :
    lastMaster moves id = none ↔ ∀ m ∈ moves, m.subcategoryId ≠ id := by
  simp [lastMaster]

@[simp] theorem rehang_name (c : Category) : (rehang org moves c).name = c.name := by
  unfold rehang
  split_ifs <;> rfl

@[simp] theorem rehang_orgId (c : Category) : (rehang org moves c).orgId = c.orgId := by
  unfold rehang
  split_ifs <;> rfl

@[simp] theorem rehang_type (c : Category) : (rehang org moves c).type = c.type := by
  unfold rehang
  split_ifs <;> rfl

theorem parentId_rehang (horg : c.orgId = org) :
    (rehang org moves c).parentId = (lastMaster moves c.id).or c.parentId := by
  rw [rehang, if_pos horg]

@[simp] theorem rehang_nil (c : Category) : rehang org [] c = c := by
  unfold rehang
  split_ifs <;> simp

@[simp] theorem rehung_nil (books : Books) (org : ℕ) : rehung books org [] = books := by
  unfold rehung
  congr 1
  congr 1
  refine Table.ext ?_ rfl
  exact (List.map_congr_left fun c _ => rehang_nil c).trans (List.map_id' _)

theorem get?_rehung (books : Books) (org : ℕ) (moves : List BatchMoveItem) (i : ℕ) :
    (rehung books org moves).categories.get? i =
      (books.categories.get? i).map (rehang org moves) := by
  exact Table.get?_mapRows books.categories (rehang org moves) (rehang_id org moves) i

theorem category?_rehung (i : ℕ) : (rehung books org moves).category? i org =
    (books.category? i org).map (rehang org moves) := by
  unfold Db.category?
  rw [get?_rehung]
  cases books.categories.get? i with
  | none => rfl
  | some c =>
    rw [Option.map_some, Option.filter_some, Option.filter_some, rehang_orgId]
    split_ifs <;> rfl

/-- Writing one more move. -/
theorem setParent_rehung (books : Books) (org : ℕ) (done : List BatchMoveItem)
    (move : BatchMoveItem) :
    setParent (rehung books org done) org move.subcategoryId move.targetParentId =
      rehung books org (done ++ [move]) := by
  unfold setParent rehung
  congr 1
  congr 1
  refine Table.ext ?_ rfl
  show ((books.categories.rows.map _).map _) = books.categories.rows.map _
  rw [List.map_map]
  refine List.map_congr_left fun c _ => ?_
  rw [Function.comp_apply]
  show (if (rehang org done c).id = move.subcategoryId then _ else _) = _
  rw [rehang_id]
  beta_reduce
  by_cases horg : c.orgId = org
  · rw [rehang_orgId, if_pos horg]
    unfold rehang
    rw [if_pos horg, if_pos horg, lastMaster_append]
    by_cases hid : c.id = move.subcategoryId
    · rw [if_pos hid, if_pos hid.symm, Option.some_or]
    · rw [if_neg hid, if_neg (Ne.symm hid)]
  · rw [rehang_orgId, if_neg horg, ite_self]
    unfold rehang
    rw [if_neg horg, if_neg horg]

/-! ### What a move checks -/

/-- A move is allowed: a subcategory and another master of its type, and no other child of that
master with the name. -/
structure CanMove [Casing] (books : Books) (org : ℕ) (move : BatchMoveItem)
    (sub target : Category) : Prop where
  sub_found : books.category? move.subcategoryId org = some sub
  source_found : ∃ m, (sub.parentId.bind fun p => books.category? p org) = some m
  target_found : books.category? move.targetParentId org = some target
  target_master : target.parentId = none
  parent_ne : sub.parentId ≠ some target.id
  type_eq : sub.type = target.type
  name_ne : ∀ s ∈ childrenOf books org target.id, s.id ≠ sub.id →
    normalizeCategoryName s.name ≠ normalizeCategoryName sub.name

theorem checkNameCollision_eq_ok [Casing] : checkNameCollision books org sub target = .ok () ↔
    ∀ s ∈ childrenOf books org target.id, s.id ≠ sub.id →
      normalizeCategoryName s.name ≠ normalizeCategoryName sub.name := by
  unfold checkNameCollision
  split
  · next hnone =>
    simp only [List.find?_eq_none, decide_eq_true_eq, not_and] at hnone
    exact iff_of_true rfl hnone
  · next s hs =>
    have hfound := List.find?_some hs
    simp only [decide_eq_true_eq] at hfound
    exact iff_of_false (by simp) fun h => h s (List.mem_of_find?_eq_some hs) hfound.1 hfound.2

theorem resolveForMove_eq_ok [Casing] :
    resolveForMove books org move.subcategoryId move.targetParentId = .ok (sub, target) ↔
      CanMove books org move sub target := by
  unfold resolveForMove
  simp only [↓unit_bind_eq_ok, bind_eq_ok, orRaise_eq_ok, raiseIf_eq_ok, pure_eq_ok,
    checkNameCollision_eq_ok, Prod.mk.injEq, not_not]
  constructor
  · rintro ⟨s, hs, hsub, t, ht, hmaster, hne, htype, m, hm, hname, rfl, rfl⟩
    exact ⟨hs, ⟨m, hm⟩, ht, hmaster, fun h => hne h.symm, htype, hname⟩
  · rintro ⟨hs, ⟨m, hm⟩, ht, hmaster, hne, htype, hname⟩
    refine ⟨sub, hs, fun hnone => ?_, target, ht, hmaster, fun h => hne h.symm, htype, m, hm, hname,
      rfl, rfl⟩
    rw [hnone, Option.bind_none] at hm
    cases hm

theorem CanMove.sub_id [Casing] (h : CanMove books org move sub target) :
    move.subcategoryId = sub.id :=
  (Category.id_of_get? (Db.category?_eq_some.mp h.sub_found).1).symm

theorem CanMove.target_id [Casing] (h : CanMove books org move sub target) :
    move.targetParentId = target.id :=
  (Category.id_of_get? (Db.category?_eq_some.mp h.target_found).1).symm

theorem CanMove.sub_parent [Casing] (h : CanMove books org move sub target) :
    sub.parentId ≠ none := by
  intro hnone
  obtain ⟨m, hm⟩ := h.source_found
  rw [hnone, Option.bind_none] at hm
  cases hm

/-- A move that is allowed is done. -/
theorem CanMove.moveSubcategory [Casing] (h : CanMove books org move sub target) :
    moveSubcategory books org move.subcategoryId move.targetParentId =
      .ok (setParent books org move.subcategoryId move.targetParentId) := by
  unfold Pfv.moveSubcategory
  rw [bind_of_ok (resolveForMove_eq_ok.mpr h), h.sub_id, h.target_id]
  rfl

/-! ### Moves after other moves -/

/-- Moves that were allowed before any of them was done. -/
def AllMove [Casing] (books : Books) (org : ℕ) (done : List BatchMoveItem)
    (P : Category → Category → Prop) : Prop :=
  ∀ m ∈ done, ∃ s t, CanMove books org m s t ∧ P s t

/-- A target is moved by none of them. -/
theorem AllMove.rehang_target [Casing] {P : Category → Category → Prop}
    (hdone : AllMove books org done P)
    (htarget : books.category? move.targetParentId org = some target)
    (hmaster : target.parentId = none) : rehang org done target = target := by
  have hnone : lastMaster done target.id = none := by
    rw [lastMaster_eq_none_iff]
    intro m hm hid
    obtain ⟨s, t, hcan, -⟩ := hdone m hm
    have hsub := hcan.sub_found
    rw [hid, Category.id_of_get? (Db.category?_eq_some.mp htarget).1, htarget] at hsub
    exact hcan.sub_parent (Option.some.inj hsub ▸ hmaster)
  unfold rehang
  rw [hnone, Option.none_or, ite_self]

/-- A move stays allowed when moves are done that bring no equal name under its target: it would be
refused only for a second move of one subcategory to one master, or for a name that another move
brought there. -/
theorem CanMove.after [Casing] (h : CanMove books org move sub target)
    (hdone : AllMove books org done fun s t =>
      ¬(t.id = target.id ∧ normalizeCategoryName s.name = normalizeCategoryName sub.name)) :
    CanMove (rehung books org done) org move (rehang org done sub) target := by
  have horg : sub.orgId = org := (Db.category?_eq_some.mp h.sub_found).2
  -- The last move of a category to the target is one of those done.
  have hlast : ∀ i c, books.category? i org = some c → lastMaster done c.id = some target.id →
      normalizeCategoryName c.name ≠ normalizeCategoryName sub.name := by
    intro i c hc hlast hname
    obtain ⟨m, hm, hid, htarget⟩ := mem_of_lastMaster hlast
    obtain ⟨s, t, hcan, hne⟩ := hdone m hm
    have hsc : s = c := by
      have hsub := hcan.sub_found
      rw [hid, Category.id_of_get? (Db.category?_eq_some.mp hc).1, hc] at hsub
      exact (Option.some.inj hsub).symm
    exact hne ⟨hcan.target_id.symm.trans htarget, hsc ▸ hname⟩
  refine ⟨?_, ?_, ?_, h.target_master, ?_, ?_, ?_⟩
  · rw [category?_rehung, h.sub_found, Option.map_some]
  · rw [parentId_rehang horg]
    cases hto : lastMaster done sub.id with
    | none =>
      obtain ⟨m, hm⟩ := h.source_found
      obtain ⟨p, hp, hm⟩ := Option.bind_eq_some_iff.mp hm
      refine ⟨rehang org done m, ?_⟩
      rw [Option.none_or, hp, Option.bind_some, category?_rehung, hm, Option.map_some]
    | some p =>
      obtain ⟨m, hm, -, rfl⟩ := mem_of_lastMaster hto
      obtain ⟨s, t, hcan, -⟩ := hdone m hm
      refine ⟨rehang org done t, ?_⟩
      rw [Option.some_or, Option.bind_some, category?_rehung, hcan.target_found, Option.map_some]
  · rw [category?_rehung, h.target_found, Option.map_some,
      hdone.rehang_target h.target_found h.target_master]
  · rw [parentId_rehang horg]
    cases hto : lastMaster done sub.id with
    | none => exact h.parent_ne
    | some p =>
      rw [Option.some_or]
      intro hp
      exact hlast move.subcategoryId sub h.sub_found (hto.trans hp) rfl
  · rw [rehang_type, h.type_eq]
  · intro s hs hid
    obtain ⟨hget, hparent, hsorg⟩ := mem_childrenOf.mp hs
    rw [get?_rehung] at hget
    obtain ⟨c, hc, rfl⟩ := Option.map_eq_some_iff.mp hget
    rw [rehang_orgId] at hsorg
    rw [rehang_id, rehang_id] at hid
    rw [rehang_id] at hc
    rw [rehang_name, rehang_name]
    rw [parentId_rehang hsorg] at hparent
    cases hto : lastMaster done c.id with
    | none =>
      rw [hto, Option.none_or] at hparent
      exact h.name_ne c (mem_childrenOf.mpr ⟨hc, hparent, hsorg⟩) hid
    | some p =>
      rw [hto, Option.some_or] at hparent
      exact hlast c.id c (Db.category?_eq_some.mpr ⟨hc, hsorg⟩) (hto.trans hparent)

/-! ### Names -/

/-- A category shares its normalised name with no other child of its parent. -/
def NameIsFree [Casing] (books : Books) (org id : ℕ) : Prop :=
  ∀ c p, books.category? id org = some c → c.parentId = some p →
    ∀ d ∈ childrenOf books org p, d.id ≠ c.id →
      normalizeCategoryName d.name ≠ normalizeCategoryName c.name

theorem setParent_eq_rehung (books : Books) (org : ℕ) (move : BatchMoveItem) :
    setParent books org move.subcategoryId move.targetParentId = rehung books org [move] := by
  have h := setParent_rehung books org [] move
  rwa [rehung_nil] at h

/-- A child of a master after a move is the one that moved there, or was its child before. -/
theorem mem_childrenOf_rehung {p : ℕ} {d : Category}
    (h : d ∈ childrenOf (rehung books org [move]) org p) :
    ∃ c, books.category? c.id org = some c ∧ d.id = c.id ∧ d.name = c.name ∧
      (c.id = move.subcategoryId ∧ p = move.targetParentId ∨
        c.id ≠ move.subcategoryId ∧ c ∈ childrenOf books org p) := by
  obtain ⟨hget, hparent, horg⟩ := mem_childrenOf.mp h
  rw [get?_rehung] at hget
  obtain ⟨c, hc, rfl⟩ := Option.map_eq_some_iff.mp hget
  rw [rehang_id] at hc
  rw [rehang_orgId] at horg
  refine ⟨c, Db.category?_eq_some.mpr ⟨hc, horg⟩, rehang_id org [move] c, rehang_name c, ?_⟩
  rw [parentId_rehang horg, show [move] = [] ++ [move] from rfl, lastMaster_append,
    lastMaster_nil] at hparent
  by_cases hid : move.subcategoryId = c.id
  · rw [if_pos hid, Option.some_or, Option.some_inj] at hparent
    exact .inl ⟨hid.symm, hparent.symm⟩
  · rw [if_neg hid, Option.none_or] at hparent
    exact .inr ⟨Ne.symm hid, mem_childrenOf.mpr ⟨hc, hparent, horg⟩⟩

/-- A move gives the subcategory a free name and takes none away. -/
theorem CanMove.nameIsFree [Casing] (h : CanMove books org move sub target) {id : ℕ}
    (hfree : id = move.subcategoryId ∨ NameIsFree books org id) :
    NameIsFree (rehung books org [move]) org id := by
  intro c' p hc' hp d' hd' hne
  rw [category?_rehung] at hc'
  obtain ⟨c, hc, rfl⟩ := Option.map_eq_some_iff.mp hc'
  obtain ⟨hget, horg⟩ := Db.category?_eq_some.mp hc
  have hid : c.id = id := Category.id_of_get? hget
  obtain ⟨d, hd, hdid, hdname, hcase⟩ := mem_childrenOf_rehung hd'
  rw [rehang_id, hdid] at hne
  rw [rehang_name, hdname]
  rw [parentId_rehang horg, show [move] = [] ++ [move] from rfl, lastMaster_append,
    lastMaster_nil] at hp
  -- The moved subcategory is found under its id only.
  have hmoved : ∀ e, e.id = move.subcategoryId → books.category? e.id org = some e → e = sub :=
    fun e he hfound => by
      rw [he, h.sub_found] at hfound
      exact (Option.some.inj hfound).symm
  by_cases hmove : move.subcategoryId = c.id
  · rw [if_pos hmove, Option.some_or, Option.some_inj] at hp
    have hsub : c = sub := hmoved c hmove.symm (hid ▸ hc)
    rcases hcase with ⟨hdmove, -⟩ | ⟨-, hchild⟩
    · exact absurd (hdmove.trans hmove) hne
    · rw [← hp, h.target_id] at hchild
      exact hsub ▸ h.name_ne d hchild (hsub ▸ hne)
  · rw [if_neg hmove, Option.none_or] at hp
    rcases hcase with ⟨hdmove, hpt⟩ | ⟨-, hchild⟩
    · -- The moved subcategory has come beside the category.
      have hsub : d = sub := hmoved d hdmove hd
      rw [hpt, h.target_id] at hp
      exact fun heq => h.name_ne c (mem_childrenOf.mpr ⟨hid ▸ hget, hp, horg⟩)
        (fun hcs => hne (by rw [hsub, hcs])) (hsub ▸ heq.symm)
    · exact (hfree.resolve_left fun hi => hmove (by rw [hid, hi])) c p hc hp d hchild hne

/-! ### The batch -/

theorem checkBatchCollision_eq_ok [Casing] {seen : List (ℕ × String × ℕ)} :
    checkBatchCollision seen sub target = .ok () ↔
      ∀ s ∈ seen, ¬(s.1 = target.id ∧ s.2.1 = normalizeCategoryName sub.name) := by
  unfold checkBatchCollision
  split
  · next hnone =>
    simp only [List.find?_eq_none, decide_eq_true_eq] at hnone
    exact iff_of_true rfl hnone
  · next s hs =>
    have hfound := List.find?_some hs
    simp only [decide_eq_true_eq] at hfound
    exact iff_of_false (by simp) fun h => h s (List.mem_of_find?_eq_some hs) hfound

/-- The moves of a batch that was accepted, done one by one behind those before: each is still
allowed, and all of them leave the subcategories they name with free names. -/
theorem foldlM_moveSubcategory [Casing] {seen : List (ℕ × String × ℕ)} {resolved : List (ℕ × ℕ)}
    (hdone : AllMove books org done fun s t => (t.id, normalizeCategoryName s.name, s.id) ∈ seen)
    (hfree : ∀ m ∈ done, NameIsFree (rehung books org done) org m.subcategoryId)
    (h : resolveMoves books org moves seen = .ok resolved) :
    resolved = moves.map (fun m => (m.subcategoryId, m.targetParentId)) ∧
      moves.foldlM (fun b m => moveSubcategory b org m.subcategoryId m.targetParentId)
          (rehung books org done) = .ok (rehung books org (done ++ moves)) ∧
      ∀ m ∈ done ++ moves, NameIsFree (rehung books org (done ++ moves)) org m.subcategoryId := by
  induction moves generalizing done seen resolved with
  | nil =>
    rw [resolveMoves, pure_eq_ok] at h
    rw [List.append_nil]
    exact ⟨h.symm, rfl, hfree⟩
  | cons move moves ih =>
    unfold resolveMoves at h
    simp only [↓unit_bind_eq_ok, bind_eq_ok, Prod.exists, pure_eq_ok] at h
    obtain ⟨sub, target, hmove, hcheck, rest, hrest, rfl⟩ := h
    have hcan := resolveForMove_eq_ok.mp hmove
    have hcan' := hcan.after fun m hm => by
      obtain ⟨s, t, hst, hseen⟩ := hdone m hm
      exact ⟨s, t, hst, checkBatchCollision_eq_ok.mp hcheck _ hseen⟩
    have hstep : setParent (rehung books org done) org move.subcategoryId move.targetParentId =
        rehung books org (done ++ [move]) := setParent_rehung books org done move
    have hdone' : AllMove books org (done ++ [move]) fun s t =>
        (t.id, normalizeCategoryName s.name, s.id) ∈
          (target.id, normalizeCategoryName sub.name, sub.id) :: seen := by
      intro m hm
      rcases List.mem_append.mp hm with hm | hm
      · obtain ⟨s, t, hst, hseen⟩ := hdone m hm
        exact ⟨s, t, hst, List.mem_cons_of_mem _ hseen⟩
      · rw [List.mem_singleton.mp hm]
        exact ⟨sub, target, hcan, List.mem_cons_self⟩
    have hfree' : ∀ m ∈ done ++ [move],
        NameIsFree (rehung books org (done ++ [move])) org m.subcategoryId := by
      intro m hm
      rw [← hstep, setParent_eq_rehung]
      refine hcan'.nameIsFree ?_
      rcases List.mem_append.mp hm with hm | hm
      · exact .inr (hfree m hm)
      · exact .inl (by rw [List.mem_singleton.mp hm])
    obtain ⟨hresolved, hrun, hnames⟩ := ih hdone' hfree' hrest
    rw [List.append_assoc, List.singleton_append] at hrun hnames
    refine ⟨?_, ?_, hnames⟩
    · rw [hresolved, List.map_cons, hcan.sub_id, hcan.target_id]
    · rw [List.foldlM_cons, bind_of_ok hcan'.moveSubcategory, hstep]
      exact hrun

/-- Writing the moves of a batch. -/
theorem foldl_setParent (books : Books) (org : ℕ) (done moves : List BatchMoveItem) :
    (moves.map fun m => (m.subcategoryId, m.targetParentId)).foldl
        (fun b m => setParent b org m.1 m.2) (rehung books org done) =
      rehung books org (done ++ moves) := by
  induction moves generalizing done with
  | nil => rw [List.map_nil, List.foldl_nil, List.append_nil]
  | cons move moves ih =>
    rw [List.map_cons, List.foldl_cons, setParent_rehung, ih, List.append_assoc,
      List.singleton_append]

end

/-- A batch of moves that is accepted can be done one by one in its order, with the same result:
every named subcategory under the target of its last move with a name that none of its siblings has,
and everything else as before. A batch that is refused changes nothing. -/
theorem batchMove_refines [Casing] (books : Books) (org : ℕ) (moves : List BatchMoveItem) :
    (∀ books', batchMoveSubcategories books org moves = .ok books' →
      moves.foldlM (fun b m => moveSubcategory b org m.subcategoryId m.targetParentId) books =
          .ok books' ∧
        books' = rehung books org moves ∧ ∀ m ∈ moves, NameIsFree books' org m.subcategoryId) ∧
    ∀ e, batchMoveSubcategories books org moves = .error e →
      serve CategoryRequest.step books (.batchMove org moves) = books := by
  refine ⟨fun books' h => ?_, fun e h => serve_of_error h⟩
  unfold batchMoveSubcategories at h
  simp only [↓unit_bind_eq_ok, bind_eq_ok, pure_eq_ok] at h
  obtain ⟨-, resolved, hmoves, rfl⟩ := h
  obtain ⟨hresolved, hrun, hfree⟩ :=
    @foldlM_moveSubcategory books org moves [] _ [] resolved
      (fun _ hm => absurd hm List.not_mem_nil)
      (fun _ hm => absurd hm List.not_mem_nil) hmoves
  have hwrite := foldl_setParent books org [] moves
  rw [rehung_nil, ← hresolved] at hwrite
  rw [rehung_nil] at hrun
  rw [hwrite]
  exact ⟨hrun, rfl, hfree⟩

attribute [local instance] asciiCasing

/-- Three masters and two subcategories of one name. -/
def sampleMasters : Books where
  toDb :=
    { sampleDb with
      categories := ⟨[{ id := 1, orgId := 1, name := "Home" },
          { id := 2, orgId := 1, name := "Car" }, { id := 3, orgId := 1, name := "Work" },
          { id := 4, orgId := 1, parentId := some 1, name := "Fees" },
          { id := 5, orgId := 1, parentId := some 1, name := "fees" }], 6, by decide, by decide⟩ }
  categoryRules := .empty
  budgets := .empty
  forecastPlans := .empty
  forecastPlanItems := .empty

/-- One subcategory goes to two targets in turn. -/
theorem batchMove_refines_sampleMasters :
    ∃ books', batchMoveSubcategories sampleMasters 1 [⟨4, 2⟩, ⟨4, 3⟩] = .ok books' ∧
      books' = rehung sampleMasters 1 [⟨4, 2⟩, ⟨4, 3⟩] ∧ NameIsFree books' 1 4 := by
  have hok : (batchMoveSubcategories sampleMasters 1 [⟨4, 2⟩, ⟨4, 3⟩]).isOk = true := by
    decide +kernel
  obtain ⟨books', h⟩ := exists_of_isOk hok
  obtain ⟨-, heq, hfree⟩ := (batchMove_refines sampleMasters 1 [⟨4, 2⟩, ⟨4, 3⟩]).1 books' h
  exact ⟨books', h, heq, hfree ⟨4, 2⟩ (by simp)⟩

end Pfv
