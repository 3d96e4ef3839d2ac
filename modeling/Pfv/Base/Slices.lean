import Pfv.Base.Table

/-!
# The rows of one owner

Every row of a table belongs to an owner. This file has the part of a table that belongs to one
owner, what each change of the table does to the parts of the others, and the keys that hold a row
of an owner.

## Main definitions

* `Table.slice owner o t`: the rows of a table that belong to `o`.
* `Table.Has owner o t i`: the row with key `i` belongs to `o`.
* `Table.KeepsOwners owner t t'`: every row is still there, with its owner.

## Main results

* `Table.slice_insert`, `Table.slice_put`, `Table.slice_mapRows`, `Table.slice_filter`: a change of
  the rows of one owner leaves the part of another.
* `Table.filter_insert`, `Table.filter_put`, `Table.filter_mapRows`: a change of rows of a part is a
  change of the part.
-/

namespace Pfv

universe u v

namespace Table

variable {α : Type u} [Row α] {κ : Type v} {owner : α → κ} {o : κ} {t : Table α}

/-! ### The part of an owner -/

section

variable [DecidableEq κ]

/-- The rows of an owner, in the order of insertion. -/
def slice (owner : α → κ) (o : κ) (t : Table α) : List α :=
  t.rows.filter fun a => owner a = o

/-- A new row of another owner. -/
theorem slice_insert {a : α} (h : owner (Row.withId t.next a) ≠ o) :
    (t.insert a).slice owner o = t.slice owner o := by
  simp [slice, insert, List.filter_append, h]

/-- A row of another owner written back. -/
theorem slice_put {a b : α} (hb : t.get? (Row.id a) = some b) (hbo : owner b ≠ o)
    (hao : owner a ≠ o) : (t.put a).slice owner o = t.slice owner o :=
  filter_put_of_not hb (by simpa using hao) (by simpa using hbo)

/-- A change that keeps owners and leaves the rows of an owner alone. -/
theorem slice_mapRows {f : α → α} (hf) (howner : ∀ a, owner (f a) = owner a)
    (h : ∀ a ∈ t.rows, owner a = o → f a = a) :
    (t.mapRows f hf).slice owner o = t.slice owner o := by
  have hsame : (fun a => decide (owner a = o)) ∘ f = fun a => decide (owner a = o) := by
    funext a
    simp [howner]
  change (t.rows.map f).filter _ = _
  rw [List.filter_map, hsame]
  refine (List.map_congr_left fun a ha => ?_).trans (List.map_id _)
  obtain ⟨hmem, ho⟩ := List.mem_filter.mp ha
  exact h a hmem (of_decide_eq_true ho)

theorem slice_modify {i : ℕ} {f : α → α} (hf) (howner : ∀ a, owner (f a) = owner a)
    (h : ∀ a, t.get? i = some a → owner a ≠ o) :
    (t.modify i f hf).slice owner o = t.slice owner o := by
  refine slice_mapRows _ (fun a => ?_) fun a ha ho => if_neg fun hid => ?_
  · split_ifs
    · exact howner a
    · rfl
  · exact h a (hid ▸ get?_of_mem ha) ho

/-- A deletion that spares the rows of an owner. -/
theorem slice_filter {p : α → Bool} (h : ∀ a ∈ t.rows, owner a = o → p a = true) :
    (t.filter p).slice owner o = t.slice owner o := by
  simp only [slice, filter, List.filter_filter]
  refine List.filter_congr fun a ha => ?_
  by_cases ho : owner a = o
  · simp [ho, h a ha ho]
  · simp [ho]

end

/-! ### Changes of a part -/

section

variable {p : α → Bool}

theorem filter_insert {a : α} (h : p (Row.withId t.next a) = true) :
    (t.insert a).filter p = (t.filter p).insert a := by
  refine Table.ext ?_ rfl
  simp [filter, insert, List.filter_append, h]

theorem filter_mapRows {f : α → α} (hf) (h : ∀ a ∈ t.rows, p (f a) = p a) :
    (t.mapRows f hf).filter p = (t.filter p).mapRows f hf := by
  refine Table.ext ?_ rfl
  change (t.rows.map f).filter p = (t.rows.filter p).map f
  rw [List.filter_map]
  exact congrArg (List.map f) (List.filter_congr h)

theorem filter_modify {i : ℕ} {f : α → α} (hf) (h : ∀ a, p (f a) = p a) :
    (t.modify i f hf).filter p = (t.filter p).modify i f hf := by
  refine filter_mapRows _ fun a _ => ?_
  split_ifs
  · exact h a
  · rfl

/-- A row written back over a row that is in the part exactly when it is. -/
theorem filter_put {a b : α} (hb : t.get? (Row.id a) = some b) (h : p a = p b) :
    (t.put a).filter p = (t.filter p).put a := by
  refine filter_mapRows _ fun c hc => ?_
  split_ifs with hid
  · rw [h, get?_inj (get?_self hb) (get?_of_mem hc) ((get?_id hb).trans hid.symm)]
  · rfl

/-- A row of the part is found there. -/
theorem filter_get?_filter (t : Table α) (p : α → Bool) (i : ℕ) :
    ((t.filter p).get? i).filter p = (t.get? i).filter p := by
  rw [get?_filter, Option.filter_filter]
  simp

theorem filter_filter (q : α → Bool) : (t.filter q).filter p = (t.filter p).filter q := by
  refine Table.ext ?_ rfl
  simp only [filter, List.filter_filter]
  exact List.filter_congr fun a _ => Bool.and_comm _ _

end

/-- The rows with a primary key are the one that is found under it, if any. -/
theorem filter_id_eq (t : Table α) (i : ℕ) :
    t.rows.filter (Row.id · = i) = (t.get? i).toList := by
  have hrows (l : List α) (hl : (l.map Row.id).Nodup) :
      l.filter (Row.id · = i) = (l.find? (Row.id · = i)).toList := by
    induction l with
    | nil => rfl
    | cons a l ih =>
      rw [List.map_cons, List.nodup_cons] at hl
      by_cases ha : Row.id a = i
      · have hnone : l.filter (Row.id · = i) = [] := List.filter_eq_nil_iff.mpr fun b hb hbi =>
          hl.1 (ha.trans (of_decide_eq_true hbi).symm ▸ List.mem_map_of_mem hb)
        rw [List.filter_cons_of_pos (by simpa using ha), hnone,
          List.find?_cons_of_pos (by simpa using ha)]
        rfl
      · rw [List.filter_cons_of_neg (by simpa using ha),
          List.find?_cons_of_neg (by simpa using ha), ih hl.2]
  exact hrows t.rows t.nodup

/-- Counting the row under a primary key besides others counts one more when it was not among
them. -/
theorem countP_or_id {t : Table α} {i : ℕ} {a : α} {p : α → Bool} (ha : t.get? i = some a)
    (hp : p a = false) :
    t.rows.countP (fun b => p b || decide (Row.id b = i)) = t.rows.countP p + 1 := by
  have hrows (l : List α) (hl : (l.map Row.id).Nodup) (hmem : a ∈ l) :
      l.countP (fun b => p b || decide (Row.id b = Row.id a)) = l.countP p + 1 := by
    induction l with
    | nil => exact absurd hmem List.not_mem_nil
    | cons b l ih =>
      rw [List.map_cons, List.nodup_cons] at hl
      rcases List.mem_cons.mp hmem with rfl | hmem
      · have hrest : l.countP (fun b => p b || decide (Row.id b = Row.id a)) = l.countP p := by
          refine List.countP_congr fun b hb => ?_
          have hne : Row.id b ≠ Row.id a := fun h => hl.1 (h ▸ List.mem_map_of_mem hb)
          simp [hne]
        simp [hrest, hp]
      · have hne : Row.id b ≠ Row.id a := fun h => hl.1 (h ▸ List.mem_map_of_mem hmem)
        simp only [List.countP_cons, ih hl.2 hmem, hne, decide_false, Bool.or_false]
        exact Nat.add_right_comm _ _ _
  have hid := get?_id ha
  rw [← hid]
  exact hrows t.rows t.nodup (get?_mem ha)

/-! ### Keys of an owner -/

/-- The row with a given key belongs to an owner. -/
def Has (owner : α → κ) (o : κ) (t : Table α) (i : ℕ) : Prop :=
  ∃ a, t.get? i = some a ∧ owner a = o

theorem has_iff_filter [DecidableEq κ] {i : ℕ} :
    t.Has owner o i ↔ ∃ a, (t.get? i).filter (fun a => owner a = o) = some a := by
  simp [Has, Option.filter_eq_some_iff]

theorem has_insert_next {a : α} (h : owner (Row.withId t.next a) = o) :
    (t.insert a).Has owner o t.next :=
  ⟨_, get?_insert_next _ _, h⟩

/-- Every row is still there and belongs to the same owner. -/
def KeepsOwners (owner : α → κ) (t t' : Table α) : Prop :=
  ∀ o i, t.Has owner o i → t'.Has owner o i

theorem KeepsOwners.refl (owner : α → κ) (t : Table α) : t.KeepsOwners owner t :=
  fun _ _ h => h

theorem keepsOwners_insert (t : Table α) (a : α) : t.KeepsOwners owner (t.insert a) :=
  fun _ _ ⟨b, hb, ho⟩ => ⟨b, get?_insert_of_some a hb, ho⟩

theorem keepsOwners_mapRows {f : α → α} {hf} (howner : ∀ a, owner (f a) = owner a) :
    t.KeepsOwners owner (t.mapRows f hf) := by
  rintro o i ⟨a, ha, ho⟩
  exact ⟨f a, by rw [get?_mapRows, ha, Option.map_some], (howner a).trans ho⟩

theorem keepsOwners_modify {i : ℕ} {f : α → α} (hf) (howner : ∀ a, owner (f a) = owner a) :
    t.KeepsOwners owner (t.modify i f hf) := by
  refine keepsOwners_mapRows fun a => ?_
  split_ifs
  · exact howner a
  · rfl

/-- A row written back under the same owner. -/
theorem keepsOwners_put {a b : α} (hb : t.get? (Row.id a) = some b) (ho : owner a = owner b) :
    t.KeepsOwners owner (t.put a) := by
  rintro o i ⟨c, hc, hco⟩
  by_cases hi : i = Row.id a
  · subst hi
    rw [hb, Option.some_inj] at hc
    exact ⟨a, get?_put_self hb, ho.trans (hc ▸ hco)⟩
  · exact ⟨c, by rw [get?_put_of_ne t hi, hc], hco⟩

end Table

end Pfv
