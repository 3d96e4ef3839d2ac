import Mathlib.Tactic
import Mathlib.Algebra.BigOperators.Group.List.Basic

/-!
# Tables of rows with an auto-increment primary key

A table keeps its rows in the order of insertion and hands out increasing primary keys, which are
never reused. That keys are distinct and smaller than the next key is part of the type, so every
table built from the operations below has them.

## Main definitions

* `Row`: the rows of a table, with their primary key.
* `Table`, `Table.get?`: a table and the row with a given key.
* `Table.insert`, `Table.mapRows`, `Table.filter`: the three primitive changes; `Table.modify` and
  `Table.put` change one row.
* `Table.Grown`: a table has got new rows after those it had.
* `Table.sumOver key w k`: the sum of the weights `w` of the rows grouped under `k` by `key`.

## Main results

* `Table.get?_insert`, `Table.get?_modify`, `Table.get?_put`, `Table.get?_filter`: the row with a
  given key after each change.
* `Table.sumOver_insert`, `Table.sumOver_put_of_eq`, `Table.sumOver_filter`: how each change moves a
  grouped sum.
-/

namespace Pfv

universe u

/-- Rows that carry their primary key. -/
class Row (α : Type u) where
  /-- The primary key of a row. -/
  id : α → ℕ
  /-- The row stored under a key. -/
  withId : ℕ → α → α
  id_withId : ∀ n a, id (withId n a) = n

attribute [simp] Row.id_withId

/-- A table: its rows in the order of insertion, and the next primary key. -/
structure Table (α : Type u) [Row α] where
  rows : List α
  next : ℕ
  nodup : (rows.map Row.id).Nodup
  fresh : ∀ a ∈ rows, Row.id a < next

namespace Table

variable {α : Type u} [Row α]

@[ext] theorem ext {t t' : Table α} (hrows : t.rows = t'.rows) (hnext : t.next = t'.next) :
    t = t' := by
  cases t
  cases t'
  simp_all

/-- The table without rows. -/
def empty : Table α where
  rows := []
  next := 1
  nodup := List.nodup_nil
  fresh := by simp

/-- The row with a given primary key. -/
def get? (t : Table α) (i : ℕ) : Option α :=
  t.rows.find? fun a => Row.id a = i

/-- Store a new row under the next primary key. -/
def insert (t : Table α) (a : α) : Table α where
  rows := t.rows ++ [Row.withId t.next a]
  next := t.next + 1
  nodup := by
    rw [List.map_append, List.nodup_append]
    refine ⟨t.nodup, by simp, ?_⟩
    intro i hi j hj
    obtain ⟨b, hb, rfl⟩ := List.mem_map.mp hi
    simp only [List.map_cons, List.map_nil, Row.id_withId, List.mem_singleton] at hj
    have := t.fresh b hb
    omega
  fresh := by
    intro b hb
    rcases List.mem_append.mp hb with hb | hb
    · exact Nat.lt_succ_of_lt (t.fresh b hb)
    · rw [List.mem_singleton.mp hb, Row.id_withId]
      exact Nat.lt_succ_self _

/-- Change every row by a function that keeps primary keys. -/
def mapRows (t : Table α) (f : α → α) (hf : ∀ a, Row.id (f a) = Row.id a) : Table α where
  rows := t.rows.map f
  next := t.next
  nodup := by
    have : Row.id ∘ f = (Row.id : α → ℕ) := funext hf
    rw [List.map_map, this]
    exact t.nodup
  fresh := by
    intro b hb
    obtain ⟨a, ha, rfl⟩ := List.mem_map.mp hb
    rw [hf]
    exact t.fresh a ha

/-- Keep the rows that satisfy a predicate. -/
def filter (t : Table α) (p : α → Bool) : Table α where
  rows := t.rows.filter p
  next := t.next
  nodup := (List.filter_sublist.map Row.id).nodup t.nodup
  fresh a ha := t.fresh a (List.mem_of_mem_filter ha)

/-- Change the row with a given primary key. -/
def modify (t : Table α) (i : ℕ) (f : α → α) (hf : ∀ a, Row.id (f a) = Row.id a) : Table α :=
  t.mapRows (fun a => if Row.id a = i then f a else a) fun a => by
    split_ifs
    · exact hf a
    · rfl

/-- Write a row back over the row with the same primary key. -/
def put (t : Table α) (a : α) : Table α :=
  t.mapRows (fun b => if Row.id b = Row.id a then a else b) fun b => by
    split_ifs with h
    · exact h.symm
    · rfl

/-! ### Rows and keys -/

theorem get?_id {t : Table α} {i : ℕ} {a : α} (h : t.get? i = some a) : Row.id a = i := by
  simpa using List.find?_some h

theorem get?_self {t : Table α} {i : ℕ} {a : α} (h : t.get? i = some a) :
    t.get? (Row.id a) = some a := by
  rw [get?_id h, h]

theorem get?_mem {t : Table α} {i : ℕ} {a : α} (h : t.get? i = some a) : a ∈ t.rows :=
  List.mem_of_find?_eq_some h

theorem get?_of_mem {t : Table α} {a : α} (h : a ∈ t.rows) : t.get? (Row.id a) = some a := by
  rw [get?, List.find?_eq_some_iff_append]
  obtain ⟨l, r, hlr⟩ := List.append_of_mem h
  refine ⟨by simp, l, r, hlr, fun b hb => ?_⟩
  have hnodup := t.nodup
  rw [hlr, List.map_append, List.nodup_append] at hnodup
  have hne := hnodup.2.2 (Row.id b) (List.mem_map_of_mem hb) (Row.id a) (by simp)
  simpa using hne

theorem mem_rows_iff {t : Table α} {a : α} : a ∈ t.rows ↔ t.get? (Row.id a) = some a :=
  ⟨get?_of_mem, get?_mem⟩

theorem get?_lt {t : Table α} {i : ℕ} {a : α} (h : t.get? i = some a) : i < t.next :=
  get?_id h ▸ t.fresh a (get?_mem h)

theorem get?_next (t : Table α) : t.get? t.next = none := by
  cases h : t.get? t.next with
  | none => rfl
  | some a => exact absurd (get?_lt h) (lt_irrefl _)

@[simp] theorem get?_empty (i : ℕ) : (empty : Table α).get? i = none := rfl

@[simp] theorem next_insert (t : Table α) (a : α) : (t.insert a).next = t.next + 1 := rfl

@[simp] theorem next_mapRows (t : Table α) (f : α → α) (hf) : (t.mapRows f hf).next = t.next := rfl

@[simp] theorem next_filter (t : Table α) (p : α → Bool) : (t.filter p).next = t.next := rfl

@[simp] theorem next_modify (t : Table α) (i : ℕ) (f : α → α) (hf) :
    (t.modify i f hf).next = t.next := rfl

@[simp] theorem next_put (t : Table α) (a : α) : (t.put a).next = t.next := rfl

theorem get?_insert (t : Table α) (a : α) (i : ℕ) :
    (t.insert a).get? i = if i = t.next then some (Row.withId t.next a) else t.get? i := by
  simp only [get?, insert, List.find?_append]
  split_ifs with h
  · have hnone : t.rows.find? (fun b => Row.id b = i) = none := h ▸ get?_next t
    rw [hnone]
    simp [h]
  · rw [List.find?_cons_of_neg (by simpa using fun h' => h h'.symm)]
    simp

@[simp] theorem get?_insert_next (t : Table α) (a : α) :
    (t.insert a).get? t.next = some (Row.withId t.next a) := by
  simp [get?_insert]

theorem get?_insert_of_some {t : Table α} {i : ℕ} {b : α} (a : α) (h : t.get? i = some b) :
    (t.insert a).get? i = some b := by
  rw [get?_insert, if_neg (get?_lt h).ne, h]

theorem get?_mapRows (t : Table α) (f : α → α) (hf) (i : ℕ) :
    (t.mapRows f hf).get? i = (t.get? i).map f := by
  simp only [get?, mapRows, List.find?_map]
  congr 2
  funext a
  simp [hf]

theorem get?_filter (t : Table α) (p : α → Bool) (i : ℕ) :
    (t.filter p).get? i = (t.get? i).filter p := by
  cases h : t.get? i with
  | none =>
    simp only [get?, List.find?_eq_none] at h
    simp only [Option.filter_none, get?, List.find?_eq_none, filter]
    exact fun a ha => h a (List.mem_of_mem_filter ha)
  | some a =>
    by_cases hp : p a
    · have hmem : a ∈ (t.filter p).rows := List.mem_filter.mpr ⟨get?_mem h, hp⟩
      rw [← get?_id h, get?_of_mem hmem, Option.filter_some_pos hp]
    · rw [Option.filter_some_neg (by simpa using hp)]
      simp only [get?, List.find?_eq_none, filter]
      intro b hb hbi
      have hba : t.get? i = some b := by
        have := get?_of_mem (List.mem_of_mem_filter hb)
        rwa [of_decide_eq_true hbi] at this
      rw [h, Option.some_inj] at hba
      exact hp (hba ▸ (List.mem_filter.mp hb).2)

theorem get?_modify (t : Table α) (i : ℕ) (f : α → α) (hf) (j : ℕ) :
    (t.modify i f hf).get? j = if j = i then (t.get? j).map f else t.get? j := by
  rw [modify, get?_mapRows]
  cases h : t.get? j with
  | none => simp
  | some a => simp only [Option.map_some, get?_id h]; split_ifs <;> rfl

theorem get?_put (t : Table α) (a : α) (j : ℕ) :
    (t.put a).get? j = if j = Row.id a then (t.get? j).map fun _ => a else t.get? j := by
  rw [put, get?_mapRows]
  cases h : t.get? j with
  | none => simp
  | some b => simp only [Option.map_some, get?_id h]; split_ifs <;> rfl

theorem get?_put_self {t : Table α} {a b : α} (h : t.get? (Row.id a) = some b) :
    (t.put a).get? (Row.id a) = some a := by
  simp [get?_put, h]

theorem get?_put_of_ne (t : Table α) {a : α} {j : ℕ} (h : j ≠ Row.id a) :
    (t.put a).get? j = t.get? j := by
  simp [get?_put, h]

theorem get?_inj {t : Table α} {a b : α} (ha : t.get? (Row.id a) = some a)
    (hb : t.get? (Row.id b) = some b) (h : Row.id a = Row.id b) : a = b := by
  rw [h, hb, Option.some_inj] at ha
  exact ha.symm

theorem mem_insert {t : Table α} {a b : α} :
    b ∈ (t.insert a).rows ↔ b ∈ t.rows ∨ b = Row.withId t.next a := by
  rw [show (t.insert a).rows = t.rows ++ [Row.withId t.next a] from rfl, List.mem_append,
    List.mem_singleton]

/-- Storing rows one after another appends them, each with a key of its own. -/
theorem rows_foldl_insert {γ : Type*} (f : α → γ) (hf : ∀ n a, f (Row.withId n a) = f a) :
    ∀ (l : List α) (t : Table α),
      ∃ new, (l.foldl insert t).rows = t.rows ++ new ∧ new.map f = l.map f
  | [], t => ⟨[], (List.append_nil _).symm, rfl⟩
  | a :: l, t => by
      obtain ⟨new, hrows, hnew⟩ := rows_foldl_insert f hf l (t.insert a)
      refine ⟨Row.withId t.next a :: new, ?_, ?_⟩
      · rw [List.foldl_cons, hrows,
          show (t.insert a).rows = t.rows ++ [Row.withId t.next a] from rfl,
          List.append_assoc, List.singleton_append]
      · rw [List.map_cons, List.map_cons, hf, hnew]

/-- The rows after a row is written back: it and the rows with other keys. -/
theorem mem_put {t : Table α} {a b c : α} (hc : c ∈ t.rows) (hid : Row.id c = Row.id a) :
    b ∈ (t.put a).rows ↔ b = a ∨ (b ∈ t.rows ∧ Row.id b ≠ Row.id a) := by
  have hmem : b ∈ (t.put a).rows ↔ ∃ x ∈ t.rows, (if Row.id x = Row.id a then a else x) = b :=
    List.mem_map
  rw [hmem]
  constructor
  · rintro ⟨x, hx, rfl⟩
    split_ifs with h
    · exact .inl rfl
    · exact .inr ⟨hx, h⟩
  · rintro (rfl | ⟨hb, hne⟩)
    · exact ⟨c, hc, if_pos hid⟩
    · exact ⟨b, hb, if_neg hne⟩

/-- Writing a row back leaves what is read off the rows when it reads the same off the row
before. -/
theorem map_put_of_eq {γ : Type*} {t : Table α} {a b : α} {f : α → γ}
    (h : t.get? (Row.id a) = some b) (hf : f a = f b) : (t.put a).rows.map f = t.rows.map f := by
  refine (List.map_map ..).trans (List.map_congr_left fun c hc => ?_)
  rw [Function.comp_apply]
  split_ifs with hid
  · rw [hf, get?_inj (get?_of_mem hc) (get?_self h) (hid.trans (get?_id h).symm)]
  · rfl

/-- Writing a row back leaves a selection of rows that has it neither before nor after. -/
theorem filter_put_of_not {t : Table α} {a b : α} {p : α → Bool} (h : t.get? (Row.id a) = some b)
    (ha : ¬p a) (hb : ¬p b) : (t.put a).rows.filter p = t.rows.filter p := by
  have hother : ∀ c ∈ t.rows, p c → Row.id c ≠ Row.id a := fun c hc hp hid =>
    hb (get?_inj (get?_of_mem hc) (get?_self h) (hid.trans (get?_id h).symm) ▸ hp)
  have hsame : ∀ c ∈ t.rows,
      (p ∘ fun c => if Row.id c = Row.id a then a else c) c = p c := fun c hc => by
    rw [Function.comp_apply]
    split_ifs with hid
    · rw [Bool.eq_false_iff.mpr ha, eq_comm, Bool.eq_false_iff]
      exact fun hp => hother c hc hp hid
    · rfl
  change (t.rows.map _).filter p = _
  rw [List.filter_map, List.filter_congr hsame]
  refine (List.map_congr_left fun c hc => ?_).trans (List.map_id _)
  obtain ⟨hc, hp⟩ := List.mem_filter.mp hc
  exact if_neg (hother c hc hp)

/-- Writing a row back changes it in a selection of rows that has it before and after. -/
theorem filter_put_of_mem {t : Table α} {a b : α} {p : α → Bool} (h : t.get? (Row.id a) = some b)
    (ha : p a) (hb : p b) :
    (t.put a).rows.filter p =
      (t.rows.filter p).map fun c => if Row.id c = Row.id a then a else c := by
  have hsame : ∀ c ∈ t.rows,
      (p ∘ fun c => if Row.id c = Row.id a then a else c) c = p c := fun c hc => by
    rw [Function.comp_apply]
    split_ifs with hid
    · rw [get?_inj (get?_of_mem hc) (get?_self h) (hid.trans (get?_id h).symm), ha, hb]
    · rfl
  change (t.rows.map _).filter p = _
  rw [List.filter_map, List.filter_congr hsame]

/-- Two changes of rows commute when their functions do. -/
theorem modify_comm (t : Table α) {i j : ℕ} {f g : α → α} (hf hg) (h : ∀ a, f (g a) = g (f a)) :
    (t.modify i f hf).modify j g hg = (t.modify j g hg).modify i f hf := by
  refine ext ?_ rfl
  simp only [modify, mapRows, List.map_map]
  refine List.map_congr_left fun a _ => ?_
  simp only [Function.comp_apply, apply_ite (Row.id (α := α)), hf, hg, ite_self]
  split_ifs
  · exact (h a).symm
  all_goals rfl

/-- Writing back changed versions of some rows changes those rows and no others. -/
theorem rows_foldl_put {f : α → α} (hf : ∀ a, Row.id (f a) = Row.id a) :
    ∀ (l : List α) (t : Table α), (l.map Row.id).Nodup → (∀ a ∈ l, a ∈ t.rows) →
      (l.foldl (fun T a => T.put (f a)) t).rows =
        t.rows.map fun b => if Row.id b ∈ l.map Row.id then f b else b
  | [], t, _, _ => by simp
  | a :: l, t, hl, hmem => by
      rw [List.map_cons, List.nodup_cons] at hl
      have hput : (t.put (f a)).rows = t.rows.map fun b => if Row.id b = Row.id a then f b else b :=
        List.map_congr_left fun b hb => by
          rw [hf]
          split_ifs with h
          · rw [get?_inj (get?_of_mem hb) (get?_of_mem (hmem a List.mem_cons_self)) h]
          · rfl
      have hmem' : ∀ b ∈ l, b ∈ (t.put (f a)).rows := fun b hb => by
        have hne : Row.id b ≠ Row.id a := fun h => hl.1 (h ▸ List.mem_map_of_mem hb)
        rw [hput]
        exact List.mem_map.mpr ⟨b, hmem b (List.mem_cons_of_mem a hb), if_neg hne⟩
      rw [List.foldl_cons, rows_foldl_put hf l _ hl.2 hmem', hput, List.map_map]
      refine List.map_congr_left fun b _ => ?_
      simp only [Function.comp_apply, apply_ite (Row.id (α := α)), hf, ite_self, List.map_cons,
        List.mem_cons]
      by_cases ha : Row.id b = Row.id a
      · simp [ha, hl.1]
      · simp [ha]

theorem foldl_put_filter (t : Table α) (p : α → Bool) {f : α → α}
    (hf : ∀ a, Row.id (f a) = Row.id a) (hif) :
    (t.rows.filter p).foldl (fun T a => T.put (f a)) t =
      t.mapRows (fun a => if p a then f a else a) hif := by
  have hnext : ∀ (l : List α) (T : Table α),
      (l.foldl (fun T a => T.put (f a)) T).next = T.next := by
    intro l
    induction l with
    | nil => exact fun _ => rfl
    | cons a l ih => exact fun T => ih (T.put (f a))
  refine ext ?_ (hnext _ t)
  rw [rows_foldl_put hf _ t (List.filter_sublist.map Row.id |>.nodup t.nodup)
    fun a ha => List.mem_of_mem_filter ha]
  refine List.map_congr_left fun b hb => if_congr ?_ rfl rfl
  constructor
  · intro h
    obtain ⟨a, ha, hid⟩ := List.mem_map.mp h
    rw [← get?_inj (get?_of_mem (List.mem_of_mem_filter ha)) (get?_of_mem hb) hid]
    exact (List.mem_filter.mp ha).2
  · exact fun h => List.mem_map_of_mem (List.mem_filter.mpr ⟨hb, h⟩)

/-- The rows with the keys of some distinct rows of the table are those rows. -/
theorem filter_perm {t : Table α} {l : List α} (hl : (l.map Row.id).Nodup)
    (hmem : ∀ a ∈ l, t.get? (Row.id a) = some a) :
    (t.rows.filter fun a => Row.id a ∈ l.map Row.id).Perm l := by
  refine (List.perm_ext_iff_of_nodup (t.nodup.of_map.filter _) hl.of_map).mpr fun a => ?_
  simp only [List.mem_filter, List.mem_map, decide_eq_true_eq]
  constructor
  · rintro ⟨ha, b, hb, hba⟩
    exact get?_inj (hmem b hb) (get?_of_mem ha) hba ▸ hb
  · intro ha
    exact ⟨get?_mem (hmem a ha), a, ha, rfl⟩

/-! ### Growth -/

/-- The table has got new rows after those it had. -/
structure Grown (t t' : Table α) : Prop where
  next : t.next ≤ t'.next
  rows : ∃ l, t'.rows = t.rows ++ l ∧ ∀ a ∈ l, t.next ≤ Row.id a

theorem Grown.refl (t : Table α) : Grown t t :=
  ⟨le_rfl, [], by simp, by simp⟩

theorem Grown.trans {t t' t'' : Table α} (h : Grown t t') (h' : Grown t' t'') : Grown t t'' := by
  obtain ⟨l, hl, hids⟩ := h.rows
  obtain ⟨l', hl', hids'⟩ := h'.rows
  refine ⟨h.next.trans h'.next, l ++ l', by rw [hl', hl, List.append_assoc], fun a ha => ?_⟩
  rcases List.mem_append.mp ha with ha | ha
  · exact hids a ha
  · exact h.next.trans (hids' a ha)

theorem grown_insert (t : Table α) (a : α) : Grown t (t.insert a) :=
  ⟨Nat.le_succ _, [Row.withId t.next a], rfl, fun b hb => by
    rw [List.mem_singleton.mp hb, Row.id_withId]⟩

theorem grown_foldl {ι : Type*} {f : Table α → ι → Table α} (hf : ∀ t i, Grown t (f t i)) :
    ∀ (l : List ι) (t : Table α), Grown t (l.foldl f t)
  | [], t => Grown.refl t
  | i :: l, t => (hf t i).trans (grown_foldl hf l (f t i))

/-- The rows a table had before it grew are those with keys below the next key it had. -/
theorem Grown.rows_eq_filter {t t' : Table α} (h : Grown t t') :
    t.rows = t'.rows.filter fun a => Row.id a < t.next := by
  obtain ⟨l, hl, hids⟩ := h.rows
  rw [hl, List.filter_append, List.filter_eq_self.mpr fun a ha => by simpa using t.fresh a ha,
    List.filter_eq_nil_iff.mpr fun a ha => by simpa using hids a ha, List.append_nil]

theorem Grown.eq {t₁ t₂ t' : Table α} (h₁ : Grown t₁ t') (h₂ : Grown t₂ t')
    (hnext : t₁.next = t₂.next) : t₁ = t₂ :=
  ext (by rw [h₁.rows_eq_filter, h₂.rows_eq_filter, hnext]) hnext

/-! ### Grouped sums -/

variable {κ : Type*} [DecidableEq κ] {M : Type*} [AddCommGroup M]

/-- The sum of the weights of the rows grouped under `k`. -/
def sumOver (t : Table α) (key : α → κ) (w : α → M) (k : κ) : M :=
  (t.rows.map fun a => if key a = k then w a else 0).sum

@[simp] theorem sumOver_empty (key : α → κ) (w : α → M) (k : κ) :
    (empty : Table α).sumOver key w k = 0 := rfl

theorem sumOver_insert (t : Table α) (a : α) (key : α → κ) (w : α → M) (k : κ) :
    (t.insert a).sumOver key w k = t.sumOver key w k +
      if key (Row.withId t.next a) = k then w (Row.withId t.next a) else 0 := by
  simp [sumOver, insert]

theorem sumOver_congr {t : Table α} {key key' : α → κ} {w w' : α → M} {k : κ}
    (h : ∀ a ∈ t.rows, (if key a = k then w a else 0) = if key' a = k then w' a else 0) :
    t.sumOver key w k = t.sumOver key' w' k :=
  congrArg List.sum (List.map_congr_left h)

theorem sumOver_mapRows (t : Table α) (f : α → α) (hf) (key : α → κ) (w : α → M) (k : κ) :
    (t.mapRows f hf).sumOver key w k = t.sumOver (key ∘ f) (w ∘ f) k := by
  simp [sumOver, mapRows, Function.comp_def]

/-- A change of rows that keeps the group and the weight of every row keeps every sum. -/
theorem sumOver_mapRows_of_eq (t : Table α) {f : α → α} {hf} {key : α → κ} {w : α → M} (k : κ)
    (hkey : ∀ a ∈ t.rows, key (f a) = key a) (hw : ∀ a ∈ t.rows, w (f a) = w a) :
    (t.mapRows f hf).sumOver key w k = t.sumOver key w k := by
  rw [sumOver_mapRows]
  exact sumOver_congr fun a ha => by simp only [Function.comp_apply, hkey a ha, hw a ha]

private theorem sum_map_update {l : List α} (hl : (l.map Row.id).Nodup) {a : α} (ha : a ∈ l)
    (v : α → M) (x : M) :
    (l.map fun b => if Row.id b = Row.id a then x else v b).sum = (l.map v).sum - v a + x := by
  induction l with
  | nil => simp at ha
  | cons b l ih =>
    rw [List.map_cons, List.nodup_cons] at hl
    rw [List.map_cons, List.map_cons, List.sum_cons, List.sum_cons]
    rcases List.mem_cons.mp ha with rfl | hal
    · have htail : (l.map fun b => if Row.id b = Row.id a then x else v b) = l.map v :=
        List.map_congr_left fun c hc =>
          if_neg fun h : Row.id c = Row.id a => hl.1 (h ▸ List.mem_map_of_mem hc)
      rw [if_pos rfl, htail]
      abel
    · rw [if_neg fun h : Row.id b = Row.id a => hl.1 (h ▸ List.mem_map_of_mem hal), ih hl.2 hal]
      abel

/-- Replacing the row under a key moves a sum from the weight of the old row to that of the new,
when the weights agree on the other rows. -/
private theorem sumOver_mapRows_update {t : Table α} {i : ℕ} {a b : α} (h : t.get? i = some a)
    {f : α → α} {hf} (hfa : f a = b) (hother : ∀ c ∈ t.rows, Row.id c ≠ i → f c = c)
    (key : α → κ) {w w' : α → M} (hw : ∀ c ∈ t.rows, Row.id c ≠ i → w' c = w c) (k : κ) :
    (t.mapRows f hf).sumOver key w' k = t.sumOver key w k -
      (if key a = k then w a else 0) + if key b = k then w' b else 0 := by
  rw [sumOver_mapRows]
  refine Eq.trans (congrArg List.sum (List.map_congr_left fun c hc => ?_))
    (sum_map_update t.nodup (get?_mem h) (fun b => if key b = k then w b else 0)
      (if key b = k then w' b else 0))
  by_cases hc' : Row.id c = i
  · have hca : t.get? i = some c := hc' ▸ get?_of_mem hc
    rw [h, Option.some_inj] at hca
    subst hca
    simp [hfa]
  · simp [hother c hc hc', hw c hc hc', get?_id h, hc']

/-- Writing a row back under weights that agree on the other rows. -/
theorem sumOver_put_of_eq {t : Table α} {a b : α} (h : t.get? (Row.id b) = some a)
    (key : α → κ) {w w' : α → M} (hw : ∀ c ∈ t.rows, Row.id c ≠ Row.id b → w' c = w c) (k : κ) :
    (t.put b).sumOver key w' k = t.sumOver key w k -
      (if key a = k then w a else 0) + if key b = k then w' b else 0 :=
  sumOver_mapRows_update h (by simp [get?_id h]) (fun c _ hc => by simp [hc]) key hw k

theorem sumOver_put {t : Table α} {a b : α} (h : t.get? (Row.id b) = some a)
    (key : α → κ) (w : α → M) (k : κ) :
    (t.put b).sumOver key w k = t.sumOver key w k -
      (if key a = k then w a else 0) + if key b = k then w b else 0 :=
  sumOver_put_of_eq h key (fun _ _ _ => rfl) k

/-- A sum over the rows of a table, by the keys of another table with the same keys. -/
theorem sum_map_of_ids_eq {t t' : Table α} (h : t'.rows.map Row.id = t.rows.map Row.id)
    (f : α → M) :
    (t'.rows.map f).sum = (t.rows.map fun a => ((t'.get? (Row.id a)).map f).getD 0).sum := by
  have hself : t'.rows.map f =
      (t'.rows.map Row.id).map fun i => ((t'.get? i).map f).getD 0 := by
    rw [List.map_map]
    refine List.map_congr_left fun a ha => ?_
    simp [get?_of_mem ha]
  rw [hself, h, List.map_map]
  rfl

@[simp] theorem ids_put (t : Table α) (a : α) :
    (t.put a).rows.map Row.id = t.rows.map Row.id := by
  rw [put, mapRows, List.map_map]
  refine List.map_congr_left fun b _ => ?_
  rw [Function.comp_apply]
  split_ifs with hb
  · exact hb.symm
  · rfl

/-- Removing rows lowers a sum by the weights of the rows that go. -/
theorem sumOver_filter (t : Table α) (p : α → Bool) (key : α → κ) (w : α → M) (k : κ) :
    (t.filter p).sumOver key w k = t.sumOver key w k -
      (((t.rows.filter fun a => !p a).map fun a => if key a = k then w a else 0).sum) := by
  have h : ∀ l : List α, ((l.filter p).map fun a => if key a = k then w a else 0).sum =
      (l.map fun a => if key a = k then w a else 0).sum -
        ((l.filter fun a => !p a).map fun a => if key a = k then w a else 0).sum := by
    intro l
    induction l with
    | nil => simp
    | cons a l ih =>
      by_cases hp : p a
      · simp only [hp, List.filter_cons_of_pos, Bool.not_true, Bool.false_eq_true,
          not_false_eq_true, List.filter_cons_of_neg, List.map_cons, List.sum_cons, ih]
        abel
      · simp only [hp, Bool.not_false, List.filter_cons_of_pos, Bool.false_eq_true,
          not_false_eq_true, List.filter_cons_of_neg, List.map_cons, List.sum_cons, ih]
        abel
  exact h t.rows

end Table

end Pfv
