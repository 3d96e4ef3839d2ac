import Pfv.Categories.Tree

/-!
# The category floor

An organisation keeps at least one master and one subcategory for income and for expense. The guards
on a delete and on a type change adjust the four counts to what they will be after the change; here
the counts are read as the existence of a row, and a guard that passed leaves another row.

## Main definitions

* `HasFloor cats org`: the four counts are positive.
* `MasterOf`, `SubOf`: the rows that the counts count.

## Main results

* `hasFloor_iff`: the floor in terms of rows.
* `assertMinFloorAfterDelete_ok`, `assertMinFloorAfterTypeChange_ok`: what the guards establish.
* `HasFloor.remove`, `HasFloor.retype`: a guarded delete and a guarded type change keep the floor.
* `floor_of_run`: the floor after every run of requests other than restores.
-/

namespace Pfv

/-! ### The floor in terms of rows -/

/-- An organisation satisfies the floor. -/
def HasFloor (cats : Table Category) (org : ℕ) : Prop :=
  1 ≤ (floorCountsForOrg cats org).incomeMasters ∧ 1 ≤ (floorCountsForOrg cats org).incomeSubs ∧
    1 ≤ (floorCountsForOrg cats org).expenseMasters ∧ 1 ≤ (floorCountsForOrg cats org).expenseSubs

instance (cats : Table Category) (org : ℕ) : Decidable (HasFloor cats org) :=
  inferInstanceAs (Decidable (_ ∧ _))

/-- The category type of one side of the floor. -/
def EntryType.categoryType : EntryType → CategoryType
  | .income => .income
  | .expense => .expense

/-- The row with a key is a master of an organisation, of a type. -/
def MasterOf (cats : Table Category) (org : ℕ) (type : CategoryType) (i : ℕ) : Prop :=
  ∃ m, cats.get? i = some m ∧ m.orgId = org ∧ m.parentId = none ∧ m.type = type

/-- The row with a key is a subcategory of an organisation below a row of a type with another
key. -/
def SubOf (cats : Table Category) (org : ℕ) (type : CategoryType) (i q : ℕ) : Prop :=
  ∃ c m, cats.get? i = some c ∧ c.orgId = org ∧ c.parentId = some q ∧ cats.get? q = some m ∧
    m.orgId = org ∧ m.type = type

section

variable {cats : Table Category} {books books' : Books} {org : ℕ} {e : EntryType}

theorem hasFloor_iff_counts : HasFloor cats org ↔
    ∀ e : EntryType, 0 < countMasters cats org e.categoryType ∧
      0 < countSubs cats org e.categoryType := by
  constructor
  · rintro ⟨hmi, hsi, hme, hse⟩ e
    cases e with
    | income => exact ⟨hmi, hsi⟩
    | expense => exact ⟨hme, hse⟩
  · intro h
    exact ⟨(h .income).1, (h .income).2, (h .expense).1, (h .expense).2⟩

/-- When fewer elements satisfy `q` than `p`, some element satisfies `p` and not `q`. -/
theorem exists_of_countP_lt {α : Type} {l : List α} {p q : α → Bool}
    (h : l.countP q < l.countP p) : ∃ a ∈ l, p a = true ∧ q a = false := by
  by_contra hnone
  refine absurd (List.countP_mono_left fun a ha hp => ?_) (not_le.mpr h)
  by_contra hq
  exact hnone ⟨a, ha, hp, by simpa using hq⟩

/-- At most one row has a given key. -/
theorem countP_id_le (cats : Table Category) (x : ℕ) :
    cats.rows.countP (fun c => c.id = x) ≤ 1 := by
  have hcount : cats.rows.countP (fun c => c.id = x) = (cats.rows.map Row.id).count x := by
    rw [List.count, List.countP_map]
    refine List.countP_congr fun c _ => ?_
    simp [Row.id]
  rw [hcount]
  exact List.nodup_iff_count_le_one.mp cats.nodup x

theorem exists_masterOf_of_countP_lt {type : CategoryType} {q : Category → Bool}
    (h : cats.rows.countP q < countMasters cats org type) :
    ∃ m, MasterOf cats org type m.id ∧ cats.get? m.id = some m ∧ q m = false := by
  obtain ⟨m, hm, hp, hq⟩ := exists_of_countP_lt h
  simp only [decide_eq_true_eq] at hp
  exact ⟨m, ⟨m, Table.get?_of_mem hm, hp⟩, Table.get?_of_mem hm, hq⟩

theorem exists_subOf_of_countP_lt {type : CategoryType} {q : Category → Bool}
    (h : cats.rows.countP q < countSubs cats org type) :
    ∃ c p, SubOf cats org type c.id p ∧ cats.get? c.id = some c ∧ q c = false := by
  obtain ⟨c, hc, hp, hq⟩ := exists_of_countP_lt h
  simp only [subOfType, decide_eq_true_eq] at hp
  obtain ⟨horg, hmaster⟩ := hp
  obtain ⟨m, hm, hmtype⟩ := (Option.any_eq_true ..).mp hmaster
  obtain ⟨p, hpar, hget⟩ := Option.bind_eq_some_iff.mp hm
  simp only [decide_eq_true_eq] at hmtype
  exact ⟨c, p, ⟨c, m, Table.get?_of_mem hc, horg, hpar, hget, hmtype.1, hmtype.2⟩,
    Table.get?_of_mem hc, hq⟩

theorem countMasters_pos {type : CategoryType} {i : ℕ} (h : MasterOf cats org type i) :
    0 < countMasters cats org type := by
  obtain ⟨m, hm, hrest⟩ := h
  exact List.countP_pos_iff.mpr ⟨m, Table.get?_mem hm, by simpa using hrest⟩

theorem countSubs_pos {type : CategoryType} {i q : ℕ} (h : SubOf cats org type i q) :
    0 < countSubs cats org type := by
  obtain ⟨c, m, hc, horg, hpar, hm, hmorg, htype⟩ := h
  exact List.countP_pos_iff.mpr
    ⟨c, Table.get?_mem hc, by simp [subOfType, horg, hpar, hm, hmorg, htype]⟩

/-- The floor: both sides have a master and a subcategory below one of their type. -/
theorem hasFloor_iff : HasFloor cats org ↔ ∀ e : EntryType,
    (∃ i, MasterOf cats org e.categoryType i) ∧ ∃ i q, SubOf cats org e.categoryType i q := by
  rw [hasFloor_iff_counts]
  constructor
  · intro h e
    obtain ⟨hm, hs⟩ := h e
    obtain ⟨m, hm, -⟩ := exists_masterOf_of_countP_lt (q := fun _ => false) (by simpa using hm)
    obtain ⟨c, q, hc, -⟩ := exists_subOf_of_countP_lt (q := fun _ => false) (by simpa using hs)
    exact ⟨⟨_, hm⟩, _, _, hc⟩
  · intro h e
    obtain ⟨⟨i, hi⟩, j, q, hj⟩ := h e
    exact ⟨countMasters_pos hi, countSubs_pos hj⟩

/-- Another master than a given row, when there is more than one. -/
theorem exists_other_master {type : CategoryType} (h : 1 < countMasters cats org type) (x : ℕ) :
    ∃ i, i ≠ x ∧ MasterOf cats org type i := by
  obtain ⟨m, hm, -, hne⟩ := exists_masterOf_of_countP_lt ((countP_id_le cats x).trans_lt h)
  exact ⟨m.id, by simpa using hne, hm⟩

/-- Another subcategory than a given row, when there is more than one. -/
theorem exists_other_sub {type : CategoryType} (h : 1 < countSubs cats org type) (x : ℕ) :
    ∃ i q, i ≠ x ∧ SubOf cats org type i q := by
  obtain ⟨c, q, hc, -, hne⟩ := exists_subOf_of_countP_lt ((countP_id_le cats x).trans_lt h)
  exact ⟨c.id, q, by simpa using hne, hc⟩

/-- A subcategory below another master than a given row, when there are more subcategories than
that row has. -/
theorem exists_sub_elsewhere {type : CategoryType} {x : ℕ}
    (h : (childrenOf books org x).length < countSubs books.categories org type) :
    ∃ i q, q ≠ x ∧ SubOf books.categories org type i q := by
  rw [childrenOf, ← List.countP_eq_length_filter] at h
  obtain ⟨c, q, hc, hget, hne⟩ := exists_subOf_of_countP_lt h
  refine ⟨c.id, q, ?_, hc⟩
  rintro rfl
  obtain ⟨c', m, hc', horg, hpar, -⟩ := hc
  rw [hget, Option.some_inj] at hc'
  simp [hc', horg, hpar] at hne

/-! ### What the guards establish -/

/-- What the guard on a delete establishes: there is another master of the type of a deleted master,
and another subcategory of the side of a deleted subcategory. -/
theorem assertMinFloorAfterDelete_ok {x : Category}
    (h : assertMinFloorAfterDelete books org x = .ok ()) :
    (x.parentId = none → x.type = e.categoryType →
      1 < countMasters books.categories org e.categoryType) ∧
    ∀ q m, x.parentId = some q → books.category? q org = some m → m.type = e.categoryType →
      1 < countSubs books.categories org e.categoryType := by
  unfold assertMinFloorAfterDelete at h
  constructor
  · intro hroot htype
    simp only [hroot, htype] at h
    cases e <;> exact not_le.mp (raiseIf_bind_eq_ok.mp h).1
  · intro q m hpar hm htype
    simp only [hpar, hm, htype] at h
    cases e <;> exact not_le.mp (raiseIf_eq_ok.mp h)

/-- What the two checks of a side establish: another master, and more subcategories than its own. -/
theorem sideChecks_ok {masters subs childCount : ℕ} {lastMaster lastSub : ServiceError}
    (h : (do
      raiseIf (masters ≤ 1) lastMaster
      raiseIf (subs < 1 + childCount) lastSub) = .ok ()) : 1 < masters ∧ childCount < subs := by
  rw [raiseIf_bind_eq_ok, raiseIf_eq_ok, not_le, not_lt] at h
  exact ⟨h.1, by omega⟩

/-- What the guard on a type change establishes for a master: there is another master of its type,
and there are more subcategories of that side than its own. -/
theorem assertMinFloorAfterTypeChange_ok {x : Category} {t : CategoryType}
    (h : assertMinFloorAfterTypeChange books org x t = .ok ()) (hne : t ≠ x.type)
    (hroot : x.parentId = none) (htype : x.type = e.categoryType) :
    1 < countMasters books.categories org e.categoryType ∧
      (childrenOf books org x.id).length < countSubs books.categories org e.categoryType := by
  have hchanged : ¬(t = x.type ∨ x.type = .both) := by
    rintro (h | h)
    · exact hne h
    · cases e <;> simp [htype, EntryType.categoryType] at h
  unfold assertMinFloorAfterTypeChange at h
  rw [if_neg hchanged] at h
  simp only [hroot, htype] at h
  cases e <;> exact sideChecks_ok h

/-! ### The floor after each write -/

/-- A change that keeps a master and a subcategory of each side keeps the floor. -/
theorem HasFloor.of_rows {cats' : Table Category} (h : HasFloor cats org)
    (hrow : ∀ i c, cats.get? i = some c → c.orgId = org → ∃ c', cats'.get? i = some c' ∧
      c'.orgId = c.orgId ∧ c'.parentId = c.parentId ∧ c'.type = c.type) : HasFloor cats' org := by
  rw [hasFloor_iff] at h ⊢
  intro e
  obtain ⟨⟨i, m, hm, hmorg, hroot, hmtype⟩, j, q, c, n, hc, hcorg, hpar, hn, hnorg, hntype⟩ := h e
  obtain ⟨m', hm', horg', hpar', htype'⟩ := hrow i m hm hmorg
  obtain ⟨c', hc', hcorg', hcpar', -⟩ := hrow j c hc hcorg
  obtain ⟨n', hn', hnorg', -, hntype'⟩ := hrow q n hn hnorg
  exact ⟨⟨i, m', hm', horg'.trans hmorg, hpar'.trans hroot, htype'.trans hmtype⟩, j, q, c', n', hc',
    hcorg'.trans hcorg, hcpar'.trans hpar, hn', hnorg'.trans hnorg, hntype'.trans hntype⟩

/-- A guarded delete of a category without subcategories keeps the floor. -/
theorem HasFloor.remove (h : HasFloor books.categories org) {x : Category}
    (hx : books.category? x.id org = some x)
    (hguard : assertMinFloorAfterDelete books org x = .ok ())
    (hchildless : childrenOf books org x.id = []) :
    HasFloor (removeCategory books org x.id).categories org := by
  rw [hasFloor_iff] at h ⊢
  obtain ⟨hxget, hxorg⟩ := Db.category?_eq_some.mp hx
  have hnochild : ∀ i c, books.categories.get? i = some c → c.orgId = org →
      c.parentId ≠ some x.id := by
    intro i c hc horg hpar
    have hmem : c ∈ childrenOf books org x.id :=
      mem_childrenOf.mpr ⟨Table.get?_self hc, hpar, horg⟩
    rw [hchildless] at hmem
    exact absurd hmem (by simp)
  -- The rows of the organisation other than the deleted one stay as they are.
  have hstays : ∀ i c, i ≠ x.id → books.categories.get? i = some c → c.orgId = org →
      (removeCategory books org x.id).categories.get? i = some c := by
    intro i c hi hc horg
    rw [get?_removeCategory, if_neg hi, hc, Option.map_some, Category.orphan,
      if_neg (hnochild i c hc horg)]
  intro e
  obtain ⟨hmaster, hsub⟩ := assertMinFloorAfterDelete_ok (e := e) hguard
  obtain ⟨⟨i, hi⟩, j, q, hj⟩ := h e
  constructor
  · obtain ⟨k, hk, m, hm, horg, hroot, htype⟩ :
        ∃ k, k ≠ x.id ∧ MasterOf books.categories org e.categoryType k := by
      by_cases hix : i = x.id
      · obtain ⟨m, hm, -, hroot, htype⟩ := hi
        rw [hix, hxget, Option.some_inj] at hm
        exact exists_other_master (hmaster (hm ▸ hroot) (hm ▸ htype)) x.id
      · exact ⟨i, hix, hi⟩
    exact ⟨k, m, hstays k m hk hm horg, horg, hroot, htype⟩
  · obtain ⟨k, p, hk, c, m, hc, hcorg, hpar, hm, hmorg, htype⟩ :
        ∃ k p, k ≠ x.id ∧ SubOf books.categories org e.categoryType k p := by
      by_cases hjx : j = x.id
      · obtain ⟨c, m, hc, -, hpar, hm, hmorg, htype⟩ := hj
        rw [hjx, hxget, Option.some_inj] at hc
        exact exists_other_sub
          (hsub q m (hc ▸ hpar) (Db.category?_eq_some.mpr ⟨hm, hmorg⟩) htype) x.id
      · exact ⟨j, q, hjx, hj⟩
    have hpx : p ≠ x.id := by
      rintro rfl
      exact hnochild k c hc hcorg hpar
    exact ⟨k, p, c, m, hstays k c hk hc hcorg, hcorg, hpar, hstays p m hpx hm hmorg, hmorg, htype⟩

/-- A change of types keeps the floor when it retypes at most one master, which passed the guard,
and the subcategories it retypes have no subcategories. -/
theorem HasFloor.retype (h : HasFloor books.categories org) {x : Option Category}
    {f : Category → Category} (hf) (hparent : ∀ c, (f c).parentId = c.parentId)
    (horg : ∀ c, (f c).orgId = c.orgId)
    (hguard : ∀ y ∈ x, ∀ e : EntryType, y.type = e.categoryType →
      1 < countMasters books.categories org e.categoryType ∧
        (childrenOf books org y.id).length < countSubs books.categories org e.categoryType)
    (htype : ∀ c, books.categories.get? c.id = some c → c.orgId = org → (f c).type ≠ c.type →
      x = some c ∨ (c.parentId ≠ none ∧ childrenOf books org c.id = [])) :
    HasFloor (books.categories.mapRows f hf) org := by
  rw [hasFloor_iff] at h ⊢
  have hget : ∀ i c, books.categories.get? i = some c →
      (books.categories.mapRows f hf).get? i = some (f c) := fun i c hc => by
    rw [Table.get?_mapRows, hc, Option.map_some]
  -- Other masters keep their types, and so do the rows above the subcategories.
  have hmasters : ∀ k m, books.categories.get? k = some m → m.orgId = org → m.parentId = none →
      x ≠ some m → (f m).type = m.type := by
    intro k m hm hmorg hroot hmx
    by_contra hne
    rcases htype m (Table.get?_self hm) hmorg hne with hmx' | ⟨hsub, -⟩
    · exact hmx hmx'
    · exact hsub hroot
  have habove : ∀ k c p n, books.categories.get? k = some c → c.orgId = org →
      c.parentId = some p → books.categories.get? p = some n → n.orgId = org → x ≠ some n →
      (f n).type = n.type := by
    intro k c p n hc hcorg hpar hn hnorg hnx
    by_contra hne
    rcases htype n (Table.get?_self hn) hnorg hne with hnx' | ⟨-, hnone⟩
    · exact hnx hnx'
    · have hmem : c ∈ childrenOf books org n.id :=
        mem_childrenOf.mpr ⟨Table.get?_self hc, by rw [hpar, Category.id_of_get? hn], hcorg⟩
      rw [hnone] at hmem
      exact absurd hmem (by simp)
  intro e
  obtain ⟨⟨i, hi⟩, j, q, hj⟩ := h e
  obtain ⟨k, k', p, ⟨m, hm, hmorg, hroot, hmtype⟩, ⟨c, n, hc, hcorg, hpar, hn, hnorg, hntype⟩, hmx,
      hnx⟩ : ∃ k k' p, MasterOf books.categories org e.categoryType k ∧
        SubOf books.categories org e.categoryType k' p ∧
        (∀ m, books.categories.get? k = some m → x ≠ some m) ∧
        ∀ n, books.categories.get? p = some n → x ≠ some n := by
    by_cases hx : ∃ y, x = some y ∧ y.type = e.categoryType
    · -- The retyped master is of this side: another one stays, with a subcategory elsewhere.
      obtain ⟨y, hy, hytype⟩ := hx
      obtain ⟨hcount, hsubs⟩ := hguard y hy e hytype
      obtain ⟨k, hk, hmaster⟩ := exists_other_master hcount y.id
      obtain ⟨k', p, hp, hsub⟩ := exists_sub_elsewhere hsubs
      have hother : ∀ i m, i ≠ y.id → books.categories.get? i = some m → x ≠ some m := by
        intro i m hi hm hmx
        rw [hy, Option.some_inj] at hmx
        exact hi (hmx ▸ (Category.id_of_get? hm).symm)
      exact ⟨k, k', p, hmaster, hsub, fun m hm => hother k m hk hm, fun n hn => hother p n hp hn⟩
    · refine ⟨i, j, q, hi, hj, ?_, ?_⟩
      · obtain ⟨m, hm, -, -, hmtype⟩ := hi
        intro m' hm' hx'
        rw [hm, Option.some_inj] at hm'
        exact hx ⟨m', hx', hm' ▸ hmtype⟩
      · obtain ⟨c, n, -, -, -, hn, -, hntype⟩ := hj
        intro n' hn' hx'
        rw [hn, Option.some_inj] at hn'
        exact hx ⟨n', hx', hn' ▸ hntype⟩
  have hmf := hmasters k m hm hmorg hroot (hmx m hm)
  have hnf := habove k' c p n hc hcorg hpar hn hnorg (hnx n hn)
  exact ⟨⟨k, f m, hget k m hm, (horg m).trans hmorg, (hparent m).trans hroot, hmf.trans hmtype⟩,
    k', p, f c, f n, hget k' c hc, (horg c).trans hcorg, (hparent c).trans hpar, hget p n hn,
    (horg n).trans hnorg, hnf.trans hntype⟩

/-- Moving a subcategory below a master of its type keeps the floor: in a tree in order it stays on
its side. -/
theorem Movable.hasFloor {s t : ℕ} {o : ℕ} (hmove : Movable books.categories o s t)
    (htree : TreeOk books.categories org) (h : HasFloor books.categories org) :
    HasFloor (setParent books o s t).categories org := by
  obtain ⟨sub, target, hsub, hsorg, hspar, htarget, htorg, htmaster, htype⟩ := hmove.exists_rows
  rw [hasFloor_iff] at h ⊢
  have hmasters : ∀ q m, books.categories.get? q = some m → m.parentId = none →
      (setParent books o s t).categories.get? q = some m := by
    intro q m hm hmaster
    have hqs : q ≠ s := by
      rintro rfl
      rw [hsub, Option.some_inj] at hm
      exact hspar (hm ▸ hmaster)
    rw [get?_setParent, if_neg hqs, hm]
  intro e
  obtain ⟨⟨i, m, hm, hmorg, hroot, hmtype⟩, j, q, c, n, hc, hcorg, hpar, hn, hnorg, hntype⟩ := h e
  obtain ⟨n', hn', hnroot, -, hnc⟩ := htree j c hc hcorg q hpar
  rw [hn, Option.some_inj] at hn'
  refine ⟨⟨i, m, hmasters i m hm hroot, hmorg, hroot, hmtype⟩, ?_⟩
  by_cases hjs : j = s
  · -- The witness itself moves: its new master has its type, which its old one had.
    rw [hjs, hsub, Option.some_inj] at hc
    have hoo : o = org := by rw [← hsorg, hc, hcorg]
    refine ⟨j, t, { c with parentId := some t }, target, ?_, hcorg, rfl,
      hmasters t target htarget htmaster, htorg.trans hoo, ?_⟩
    · rw [get?_setParent, if_pos hjs, hjs, hsub, Option.map_some, if_pos hsorg, hc]
    · rw [← htype, hc, ← hnc, ← hn', hntype]
  · exact ⟨j, q, c, n, by rw [get?_setParent, if_neg hjs, hc], hcorg, hpar,
      hmasters q n hn (hn' ▸ hnroot), hnorg, hntype⟩

/-! ### Runs -/

/-- A checked update keeps the floor. -/
theorem UpdateChecked.hasFloor {o : ℕ} {cat : Category} {p : UpdatePlan}
    (hp : UpdateChecked books o cat p) (htree : TreeOk books.categories org)
    (h : HasFloor books.categories org) (hf) :
    HasFloor (books.categories.mapRows p.apply hf) org := by
  obtain ⟨hget, hcatorg⟩ := Db.category?_eq_some.mp hp.found
  -- An update of another organisation leaves the rows of this one alone.
  have hwritten : ∀ c, books.categories.get? c.id = some c → c.orgId = org →
      (p.apply c).type ≠ c.type → o = org ∧ ∃ t, p.newType = some t ∧
        (c = cat ∨ cat.parentId = none ∧ c ∈ childrenOf books o cat.id) := by
    intro c hc hcorg hne
    rw [p.apply_type] at hne
    cases ht : p.newType with
    | none => simp [ht] at hne
    | some t =>
      split_ifs at hne with hid
      · rcases hid with hid | hid
        · rw [hid, hp.id, hget, Option.some_inj] at hc
          exact ⟨by rw [← hcatorg, hc, hcorg], t, rfl, .inl hc.symm⟩
        · obtain ⟨hroot, d, hd, hdid⟩ := (hp.mem_childIds ht).mp hid
          obtain ⟨hdget, -, hdorg⟩ := mem_childrenOf.mp hd
          rw [hdid, hc, Option.some_inj] at hdget
          exact ⟨by rw [← hdorg, ← hdget, hcorg], t, rfl, .inr ⟨hroot, hdget ▸ hd⟩⟩
      · exact absurd rfl hne
  by_cases hroot : o = org ∧ p.newType ≠ none ∧ cat.parentId = none
  · obtain ⟨rfl, hnew, hroot⟩ := hroot
    obtain ⟨t, ht⟩ := Option.ne_none_iff_exists'.mp hnew
    obtain ⟨hne, -, hguard, -⟩ := hp.guards t ht
    refine h.retype (x := some cat) hf p.apply_parentId p.apply_orgId (fun x hx e htype => ?_)
      fun c hc hcorg hctype => ?_
    · rw [Option.mem_some_iff] at hx
      subst hx
      exact assertMinFloorAfterTypeChange_ok hguard hne hroot htype
    obtain ⟨-, t', -, rfl | ⟨-, hchild⟩⟩ := hwritten c hc hcorg hctype
    · exact .inl rfl
    · obtain ⟨-, hpar, -⟩ := mem_childrenOf.mp hchild
      refine .inr ⟨by simp [hpar], List.eq_nil_iff_forall_not_mem.mpr fun d hd => ?_⟩
      obtain ⟨hd, hdpar, hdorg⟩ := mem_childrenOf.mp hd
      exact htree.no_children hc (by simp [hpar]) hd hdorg hdpar
  · -- In a tree in order a subcategory keeps its type, so that no row of the organisation changes.
    refine h.of_rows fun i c hc hcorg =>
      ⟨p.apply c, by rw [Table.get?_mapRows, hc, Option.map_some],
      p.apply_orgId c, p.apply_parentId c, ?_⟩
    by_contra hne
    obtain ⟨rfl, t, ht, rfl | ⟨hcat, -⟩⟩ := hwritten c (Table.get?_self hc) hcorg hne
    · cases hpar : c.parentId with
      | none => exact hroot ⟨rfl, by simp [ht], hpar⟩
      | some q =>
        obtain ⟨m, hm, hmt⟩ := hp.parent t q ht hpar
        obtain ⟨m', hm', -, -, hmc⟩ := htree i c hc hcorg q hpar
        rw [(Db.category?_eq_some.mp hm).1, Option.some_inj] at hm'
        exact (hp.guards t ht).1 (by rw [← hmt, hm', hmc])
    · exact hroot ⟨rfl, by simp [ht], hcat⟩

/-- The requests other than a restore keep the floor of an organisation whose tree is in order. -/
theorem CategoryRequest.step_hasFloor [Casing] {r : CategoryRequest}
    (htree : TreeOk books.categories org) (h : HasFloor books.categories org)
    (hr : ∀ o, r ≠ .restore o)
    (hstep : r.step books = .ok books') : HasFloor books'.categories org := by
  cases r with
  | create o body =>
    obtain ⟨c, -, -, -, rfl⟩ := createCategory_ok hstep
    exact h.of_rows fun i d hd _ => ⟨d, Table.get?_insert_of_some c hd, rfl, rfl, rfl⟩
  | update o id body =>
    obtain ⟨p, hcheck, hwrite⟩ := bind_eq_ok.mp hstep
    obtain ⟨cat, -, hchecked⟩ := updateCategoryCheck_ok hcheck
    obtain ⟨hf, rfl⟩ := updateCategoryWrite_ok hwrite
    exact hchecked.hasFloor htree h hf
  | move o sub target =>
    obtain ⟨s, t, hmove, rfl⟩ := moveSubcategory_ok hstep
    exact hmove.hasFloor htree h
  | batchMove o moves =>
    obtain ⟨resolved, hmoves, rfl⟩ := batchMoveSubcategories_ok hstep
    exact (foldl_setParent_invariant
      (I := fun b => TreeOk b.categories org ∧ HasFloor b.categories org)
      (fun b s t hb hmove => ⟨hmove.treeOk hb.1, hmove.hasFloor hb.1 hb.2⟩) resolved books
      ⟨htree, h⟩ hmoves).2
  | delete o id target =>
    obtain ⟨p, hcheck, hwrite⟩ := bind_eq_ok.mp hstep
    obtain ⟨cat, -, hchecked⟩ := deleteCategoryCheck_ok hcheck
    obtain ⟨hget, hcatorg⟩ := Db.category?_eq_some.mp hchecked.found
    have hcats := migrate_categories p books o
    rw [deleteCategoryWrite_ok hwrite, hchecked.id]
    by_cases ho : o = org
    · subst ho
      have hchildless : childrenOf books o cat.id = [] := by
        refine List.eq_nil_iff_forall_not_mem.mpr fun d hd => ?_
        obtain ⟨hd, hpar, hdorg⟩ := mem_childrenOf.mp hd
        exact hchecked.no_children htree hd hdorg (by rw [hpar, hchecked.id])
      have hremoved := h.remove hchecked.found hchecked.floor hchildless
      refine hremoved.of_rows fun i c hc _ => ⟨c, ?_, rfl, rfl, rfl⟩
      rw [get?_removeCategory] at hc ⊢
      rwa [hcats]
    · -- The category belongs to another organisation, and none of its rows hangs below it.
      refine h.of_rows fun i c hc hcorg => ⟨c, ?_, rfl, rfl, rfl⟩
      have hi : i ≠ cat.id := by
        rintro rfl
        rw [hget, Option.some_inj] at hc
        exact ho (by rw [← hcatorg, hc, hcorg])
      have hpar := hchecked.no_children htree hc hcorg
      rw [hchecked.id] at hpar
      rw [get?_removeCategory, if_neg hi, hcats, hc, Option.map_some, Category.orphan, if_neg hpar]
  | restore o => exact absurd rfl (hr o)

/-- The minimum floor: from every state in which an organisation satisfies the floor and each of its
subcategories has its master's type, every run of creates, updates, moves, batch moves and deletes
leads to a state in which it satisfies the floor again. -/
theorem floor_of_run [Casing] (hfloor : HasFloor books.categories org)
    (htree : TreeOk books.categories org) {rs : List CategoryRequest}
    (hrs : ∀ r ∈ rs, ∀ o, r ≠ .restore o) :
    HasFloor (serveAll CategoryRequest.step books rs).categories org :=
  (serveAll_invariant (I := fun b : Books => TreeOk b.categories org ∧ HasFloor b.categories org)
    (fun _ _ _ hb hr hstep => ⟨CategoryRequest.step_treeOk hb.1 hr hstep,
      CategoryRequest.step_hasFloor hb.1 hb.2 hr hstep⟩) rs ⟨htree, hfloor⟩
    (admits_of_forall (fun _ _ hr => hr) rs books hrs)).2

end

/-! ### Sample run -/

attribute [local instance] asciiCasing

/-- Giving loses its subcategories and becomes income; a subcategory of debt moves to housing. -/
def sampleFloorRun : List CategoryRequest :=
  [.delete 1 60 none, .delete 1 61 none, .update 1 59 { type := some .income }, .move 1 56 7]

/-- The floor after the sample run. -/
theorem floor_of_sampleFloorRun :
    HasFloor (serveAll CategoryRequest.step sampleBooks sampleFloorRun).categories 1 := by
  refine floor_of_run (by decide +kernel) (sampleBooks_freshlySeeded.restoring.1 1) fun r hr o => ?_
  simp only [sampleFloorRun, List.mem_cons, List.not_mem_nil, or_false] at hr
  rcases hr with rfl | rfl | rfl | rfl <;> simp

end Pfv
