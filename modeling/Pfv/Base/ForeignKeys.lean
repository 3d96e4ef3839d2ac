import Pfv.Base.Guard
import Pfv.Base.Table

/-!
# Tables that refer to each other

A schema lists the tables of a database and the foreign keys between them, each with what happens to
the referring rows when the row they refer to is deleted: the delete is refused, the referring rows
are deleted too, or their reference is cleared. This file has the delete statement over such a
schema and what it keeps: every foreign key, and every row that none of the deleted rows is referred
to by.

## Main definitions

* `ForeignKey`, `Schema`, `Schema.Database`.
* `Schema.cascade`: the rows that go with the rows a statement selects.
* `Schema.delete`: the delete statement.
* `Schema.Valid`: every foreign key is satisfied.
* `Schema.Apart`: the rows that stay refer to no row that may go.

## Main results

* `Schema.Valid.deleted`: a delete that is not refused keeps every foreign key satisfied.
* `Schema.Apart.exists_delete`: a delete succeeds when no row that may go refers to the table
  through a restricting key.
* `Schema.Apart.progress`: the rows that stay are left as they are.
* `Schema.Shallow.deleted_of_cascade`, `Schema.Shallow.deleted_of_setNull`: a delete whose cascades
  reach one table, table by table.
* `Schema.Topological.erase_all`: tables are emptied of the rows that may go when children come
  before parents.
-/

namespace Pfv

inductive OnDelete
  | restrict
  | cascade
  | setNull
  deriving DecidableEq

/-- A reference from a column of a child table to the primary key of a parent table. -/
structure ForeignKey (T C : Type) where
  child : T
  column : C
  parent : T
  onDelete : OnDelete
  deriving DecidableEq

/-- The tables of a database with their rows, the references in them and the foreign keys. The level
of a table bounds the length of the cascades that reach it. -/
structure Schema (T C : Type) [DecidableEq C] where
  RowOf : T → Type
  row : ∀ t, Row (RowOf t)
  ref : ∀ t, RowOf t → C → Option ℕ
  clear : ∀ t, C → RowOf t → RowOf t
  keys : List (ForeignKey T C)
  level : T → ℕ
  depth : ℕ
  id_clear : ∀ t k r, Row.id (clear t k r) = Row.id r
  ref_clear : ∀ fk ∈ keys, fk.onDelete = .setNull → ∀ r k,
    ref fk.child (clear fk.child fk.column r) k =
      if k = fk.column then none else ref fk.child r k
  level_lt : ∀ fk ∈ keys, fk.onDelete = .cascade → level fk.parent < level fk.child
  level_le : ∀ t, level t ≤ depth

attribute [instance] Schema.row

namespace Schema

variable {T C : Type} [DecidableEq C] (S : Schema T C)

/-- The tables of a database. -/
abbrev Database := ∀ t, Table (S.RowOf t)

/-- A choice of rows of every table. -/
abbrev Selection := ∀ t, S.RowOf t → Bool

variable {S}

/-- The row refers to a selected row through the key. -/
def points (db : S.Database) (sel : S.Selection) (fk : ForeignKey T C) (t : T) (r : S.RowOf t) :
    Bool :=
  (S.ref t r fk.column).any fun i => ((db fk.parent).get? i).any (sel fk.parent)

theorem points_iff {db : S.Database} {sel : S.Selection} {fk : ForeignKey T C} {t : T}
    {r : S.RowOf t} :
    points db sel fk t r = true ↔
      ∃ i ∈ S.ref t r fk.column, ∃ d, (db fk.parent).get? i = some d ∧ sel fk.parent d = true := by
  simp only [points, Option.any_eq_true_iff_get, Option.mem_def]
  constructor
  · rintro ⟨hi, hd, hsel⟩
    exact ⟨_, Option.some_get hi |>.symm, _, Option.some_get hd |>.symm, hsel⟩
  · rintro ⟨i, hi, d, hd, hsel⟩
    refine ⟨by simp [hi], ?_, ?_⟩
    · simp [hi, hd]
    · simpa [hi, hd] using hsel

theorem id_foldl_clear (t : T) : ∀ (l : List (ForeignKey T C)) (r : S.RowOf t),
    Row.id (l.foldl (fun r' fk => S.clear t fk.column r') r) = Row.id r
  | [], _ => rfl
  | fk :: l, r => (id_foldl_clear t l _).trans (S.id_clear t fk.column r)

theorem points_congr {db : S.Database} {sel sel' : S.Selection} {fk : ForeignKey T C} {t : T}
    {r : S.RowOf t} (h : ∀ d, sel fk.parent d = sel' fk.parent d) :
    points db sel fk t r = points db sel' fk t r := by
  have hsel : sel fk.parent = sel' fk.parent := funext h
  simp only [points, hsel]

/-- Clearing the references through some keys. -/
theorem ref_foldl_clear {t : T} : ∀ {l : List (ForeignKey T C)},
    (∀ fk ∈ l, fk ∈ S.keys ∧ fk.child = t ∧ fk.onDelete = .setNull) → ∀ (r : S.RowOf t) (k : C),
      S.ref t (l.foldl (fun r' fk => S.clear t fk.column r') r) k =
        if k ∈ l.map (·.column) then none else S.ref t r k
  | [], _, r, k => by simp
  | fk :: l, hl, r, k => by
      obtain ⟨hfk, rfl, hnull⟩ := hl fk List.mem_cons_self
      rw [List.foldl_cons, ref_foldl_clear fun fk' h => hl fk' (List.mem_cons_of_mem _ h),
        S.ref_clear fk hfk hnull]
      by_cases hk : k = fk.column
      · simp [hk]
      · simp [hk]

variable [DecidableEq T]

/-- The selected rows, and those that refer to them through at most `n` cascading keys in a row. -/
def cascade (db : S.Database) (sel : S.Selection) : ℕ → S.Selection
  | 0 => sel
  | n + 1 => fun t r => cascade db sel n t r ||
      S.keys.any fun fk => fk.child = t ∧ fk.onDelete = .cascade ∧
        points db (cascade db sel n) fk t r

theorem cascade_succ (db : S.Database) (sel : S.Selection) (n : ℕ) (t : T) (r : S.RowOf t) :
    cascade db sel (n + 1) t r = (cascade db sel n t r ||
      S.keys.any fun fk => fk.child = t ∧ fk.onDelete = .cascade ∧
        points db (cascade db sel n) fk t r) := rfl

/-- The rows a delete statement takes away. -/
def gone (db : S.Database) (sel : S.Selection) : S.Selection :=
  cascade db sel S.depth

/-- Clear the references of a row to rows that are taken away. -/
def nullify (db : S.Database) (sel : S.Selection) (t : T) (r : S.RowOf t) : S.RowOf t :=
  (S.keys.filter fun fk => fk.child = t ∧ fk.onDelete = .setNull ∧ points db sel fk t r).foldl
    (fun r' fk => S.clear t fk.column r') r

theorem id_nullify (db : S.Database) (sel : S.Selection) (t : T) (r : S.RowOf t) :
    Row.id (nullify db sel t r) = Row.id r :=
  id_foldl_clear t _ r

/-- Some row refers to a row that is taken away through a restricting key. -/
def Restricted (db : S.Database) (sel : S.Selection) : Prop :=
  ∃ fk ∈ S.keys, fk.onDelete = .restrict ∧
    ∃ r ∈ (db fk.child).rows, points db (gone db sel) fk fk.child r = true

instance (db : S.Database) (sel : S.Selection) : Decidable (Restricted db sel) :=
  inferInstanceAs (Decidable (∃ fk ∈ S.keys, _ ∧ _))

/-- The tables after a delete that is not refused. -/
def deleted (db : S.Database) (sel : S.Selection) : S.Database := fun t =>
  ((db t).filter fun r => !gone db sel t r).mapRows (nullify db (gone db sel) t)
    (id_nullify db (gone db sel) t)

/-- Delete the selected rows. The statement is refused as a whole when some row refers to a row that
would go through a restricting key. -/
def delete {ε : Type} (e : ε) (db : S.Database) (sel : S.Selection) : Except ε S.Database := do
  raiseIf (Restricted db sel) e
  pure (deleted db sel)

/-- The rows of one table that satisfy a condition. -/
def onTable (t₀ : T) (p : S.RowOf t₀ → Bool) : S.Selection := fun t =>
  if h : t₀ = t then h ▸ p else fun _ => false

@[simp] theorem onTable_self (t₀ : T) (p : S.RowOf t₀ → Bool) : onTable t₀ p t₀ = p := by
  simp [onTable]

theorem onTable_of_ne {t₀ t : T} (h : t₀ ≠ t) (p : S.RowOf t₀ → Bool) (r : S.RowOf t) :
    onTable t₀ p t r = false := by
  simp [onTable, h]

/-- Every foreign key is satisfied. -/
def Valid (db : S.Database) : Prop :=
  ∀ fk ∈ S.keys, ∀ r ∈ (db fk.child).rows, ∀ i ∈ S.ref fk.child r fk.column,
    ((db fk.parent).get? i).isSome = true

instance (db : S.Database) : Decidable (Valid db) :=
  inferInstanceAs (Decidable (∀ fk ∈ S.keys, ∀ r ∈ (db fk.child).rows, _))

variable {db db' : S.Database} {sel : S.Selection}

/-! ### Cascades -/

theorem cascade_of_sel {t : T} {r : S.RowOf t} (h : sel t r = true) :
    ∀ n, cascade db sel n t r = true
  | 0 => h
  | n + 1 => by simp [cascade, cascade_of_sel h n]

/-- A cascade reaches a table within its level. -/
theorem cascade_stable : ∀ (n : ℕ) (t : T), S.level t ≤ n → ∀ r : S.RowOf t,
    cascade db sel (n + 1) t r = cascade db sel n t r := by
  intro n
  induction n with
  | zero =>
    intro t ht r
    refine (Bool.or_eq_left_iff_imp).mpr fun hany => ?_
    obtain ⟨fk, hfk, hcond⟩ := List.any_eq_true.mp hany
    obtain ⟨rfl, hcascade, -⟩ := of_decide_eq_true hcond
    exact absurd (S.level_lt fk hfk hcascade) (by omega)
  | succ n ih =>
    intro t ht r
    refine (Bool.or_eq_left_iff_imp).mpr fun hany => ?_
    obtain ⟨fk, hfk, hcond⟩ := List.any_eq_true.mp hany
    obtain ⟨rfl, hcascade, hpoints⟩ := of_decide_eq_true hcond
    have hlt := S.level_lt fk hfk hcascade
    rw [points_congr (ih fk.parent (by omega))] at hpoints
    exact Bool.or_eq_true_iff.mpr (.inr (List.any_eq_true.mpr
      ⟨fk, hfk, decide_eq_true ⟨rfl, hcascade, hpoints⟩⟩))

/-- A row goes when it refers to a row that goes through a cascading key. -/
theorem gone_of_points {fk : ForeignKey T C} (hfk : fk ∈ S.keys)
    (hcascade : fk.onDelete = .cascade) {r : S.RowOf fk.child}
    (h : points db (gone db sel) fk fk.child r = true) : gone db sel fk.child r = true := by
  rw [gone, ← cascade_stable S.depth fk.child (S.level_le fk.child)]
  exact Bool.or_eq_true_iff.mpr (.inr (List.any_eq_true.mpr
    ⟨fk, hfk, decide_eq_true ⟨rfl, hcascade, h⟩⟩))

/-- In a table no cascade reaches, the selected rows alone go. -/
theorem gone_of_no_cascade {t : T}
    (h : ∀ fk ∈ S.keys, fk.onDelete = .cascade → fk.child ≠ t) (r : S.RowOf t) :
    gone db sel t r = sel t r := by
  have hall : ∀ n, cascade db sel n t r = sel t r := by
    intro n
    induction n with
    | zero => rfl
    | succ n ih =>
      refine Eq.trans ((Bool.or_eq_left_iff_imp).mpr fun hany => ?_) ih
      obtain ⟨fk, hfk, hcond⟩ := List.any_eq_true.mp hany
      obtain ⟨hchild, hcascade, -⟩ := of_decide_eq_true hcond
      exact absurd hchild (h fk hfk hcascade)
  exact hall S.depth

/-! ### Deleted rows -/

theorem get?_deleted (t : T) (i : ℕ) :
    (deleted db sel t).get? i =
      (((db t).get? i).filter fun r => !gone db sel t r).map (nullify db (gone db sel) t) := by
  rw [deleted, Table.get?_mapRows, Table.get?_filter]

theorem mem_deleted {t : T} {r' : S.RowOf t} :
    r' ∈ (deleted db sel t).rows ↔
      ∃ r ∈ (db t).rows, gone db sel t r = false ∧ nullify db (gone db sel) t r = r' := by
  simp [deleted, Table.mapRows, Table.filter, and_assoc]

theorem ref_nullify (t : T) (r : S.RowOf t) (k : C) :
    S.ref t (nullify db sel t r) k =
      if k ∈ (S.keys.filter fun fk => fk.child = t ∧ fk.onDelete = .setNull ∧
        points db sel fk t r).map (·.column) then none else S.ref t r k := by
  refine ref_foldl_clear (fun fk hfk => ?_) r k
  obtain ⟨hmem, hcond⟩ := List.mem_filter.mp hfk
  obtain ⟨hchild, hnull, -⟩ := of_decide_eq_true hcond
  exact ⟨hmem, hchild, hnull⟩

/-- A table no key of which cascades or is cleared loses the selected rows and nothing else. -/
theorem deleted_eq_filter {t : T}
    (hrestrict : ∀ fk ∈ S.keys, fk.child = t → fk.onDelete = .restrict) :
    deleted db sel t = (db t).filter fun r => !sel t r := by
  have hgone : ∀ r, gone db sel t r = sel t r := by
    refine gone_of_no_cascade fun fk hfk hcascade hchild => ?_
    rw [hrestrict fk hfk hchild] at hcascade
    exact absurd hcascade (by decide)
  have hsame : ∀ r, nullify db (gone db sel) t r = r := by
    intro r
    rw [nullify, List.filter_eq_nil_iff.mpr fun fk hfk hcond => ?_]
    · rfl
    · obtain ⟨hchild, hset, -⟩ := of_decide_eq_true hcond
      rw [hrestrict fk hfk hchild] at hset
      exact absurd hset (by decide)
  refine Table.ext ?_ rfl
  change ((db t).rows.filter _).map _ = (db t).rows.filter _
  rw [List.map_congr_left fun r _ => hsame r, List.map_id']
  exact List.filter_congr fun r _ => by rw [hgone]

/-- A delete that is not refused keeps every foreign key satisfied. -/
theorem Valid.deleted (h : Valid db) (hfree : ¬Restricted db sel) : Valid (deleted db sel) := by
  intro fk hfk r' hr' i hi
  obtain ⟨r, hr, hstays, rfl⟩ := mem_deleted.mp hr'
  rw [Option.mem_def, ref_nullify] at hi
  split_ifs at hi with hcleared
  obtain ⟨d, hd⟩ := Option.isSome_iff_exists.mp (h fk hfk r hr i hi)
  have hkept : gone db sel fk.parent d = false := by
    by_contra hgone
    have hpoints : points db (gone db sel) fk fk.child r = true :=
      points_iff.mpr ⟨i, hi, d, hd, by simpa using hgone⟩
    cases hdel : fk.onDelete with
    | restrict => exact hfree ⟨fk, hfk, hdel, r, hr, hpoints⟩
    | cascade => exact absurd (gone_of_points hfk hdel hpoints) (by simp [hstays])
    | setNull =>
      exact hcleared (List.mem_map_of_mem
        (List.mem_filter.mpr ⟨hfk, decide_eq_true ⟨rfl, hdel, hpoints⟩⟩))
  rw [get?_deleted, hd]
  simp [hkept]

omit [DecidableEq T] in
/-- Changes of rows that keep the keys and add no reference keep every foreign key satisfied. -/
theorem Valid.of_rows (h : Valid db)
    (hids : ∀ t i, ((db t).get? i).isSome = true → ((db' t).get? i).isSome = true)
    (hrefs : ∀ t, ∀ r' ∈ (db' t).rows, ∃ r ∈ (db t).rows, ∀ k i, S.ref t r' k = some i →
      S.ref t r k = some i) : Valid db' := by
  intro fk hfk r' hr' i hi
  obtain ⟨r, hr, hrow⟩ := hrefs fk.child r' hr'
  exact hids fk.parent i (h fk hfk r hr i (hrow fk.column i hi))

theorem delete_eq_ok {ε : Type} {e : ε} :
    delete e db sel = .ok db' ↔ ¬Restricted db sel ∧ deleted db sel = db' := by
  unfold delete
  rw [raiseIf_bind_eq_ok, pure_eq_ok]

/-! ### Rows that stay -/

/-- The rows that stay refer to no row of a doomed table that does not stay. -/
def Apart (stays : S.Selection) (doomed : T → Prop) (db : S.Database) : Prop :=
  ∀ fk ∈ S.keys, doomed fk.parent → ∀ r ∈ (db fk.child).rows, stays fk.child r = true →
    ∀ i ∈ S.ref fk.child r fk.column, ∀ d ∈ (db fk.parent).get? i, stays fk.parent d = true

instance (stays : S.Selection) (doomed : T → Prop) [DecidablePred doomed] (db : S.Database) :
    Decidable (Apart stays doomed db) :=
  inferInstanceAs (Decidable (∀ fk ∈ S.keys, _ → ∀ r ∈ (db fk.child).rows, _ → _))

/-- Every row of the table stays. -/
def Purged (stays : S.Selection) (db : S.Database) (t : T) : Prop :=
  ∀ r ∈ (db t).rows, stays t r = true

instance (stays : S.Selection) (db : S.Database) (t : T) : Decidable (Purged stays db t) :=
  inferInstanceAs (Decidable (∀ r ∈ (db t).rows, _))

/-- The tables changed only where rows do not stay, and not at all where the schema fixes them. -/
structure Progress (stays : S.Selection) (fixed : T → Prop) (db db' : S.Database) : Prop where
  next : ∀ t, (db' t).next = (db t).next
  rows : ∀ t, (db' t).rows.filter (stays t) = (db t).rows.filter (stays t)
  origin : ∀ t, ∀ r' ∈ (db' t).rows, ∃ r ∈ (db t).rows, Row.id r = Row.id r' ∧
    (stays t r = true → r' = r)
  same : ∀ t, fixed t → db' t = db t
  valid : Valid db → Valid db'

namespace Progress

variable {stays : S.Selection} {fixed doomed : T → Prop} {db'' : S.Database}

omit [DecidableEq T]

theorem refl (db : S.Database) : Progress stays fixed db db where
  next _ := rfl
  rows _ := rfl
  origin _ r hr := ⟨r, hr, rfl, fun _ => rfl⟩
  same _ _ := rfl
  valid h := h

theorem trans (h : Progress stays fixed db db') (h' : Progress stays fixed db' db'') :
    Progress stays fixed db db'' where
  next t := (h'.next t).trans (h.next t)
  rows t := (h'.rows t).trans (h.rows t)
  origin t r'' hr'' := by
    obtain ⟨r', hr', hid', hkept'⟩ := h'.origin t r'' hr''
    obtain ⟨r, hr, hid, hkept⟩ := h.origin t r' hr'
    refine ⟨r, hr, hid.trans hid', fun hstays => ?_⟩
    obtain rfl := hkept hstays
    exact hkept' hstays
  same t ht := (h'.same t ht).trans (h.same t ht)
  valid hv := h'.valid (h.valid hv)

theorem mono {fixed' : T → Prop} (h : Progress stays fixed db db') (hle : ∀ t, fixed' t → fixed t) :
    Progress stays fixed' db db' where
  next := h.next
  rows := h.rows
  origin := h.origin
  same t ht := h.same t (hle t ht)
  valid := h.valid

theorem purged (h : Progress stays fixed db db') {t : T} (ht : Purged stays db t) :
    Purged stays db' t := by
  intro r' hr'
  obtain ⟨r, hr, -, hkept⟩ := h.origin t r' hr'
  obtain rfl := hkept (ht r hr)
  exact ht r' hr

/-- A table all of whose rows stay has lost the others and nothing else. -/
theorem eq_filter (h : Progress stays fixed db db') {t : T} (ht : Purged stays db' t) :
    db' t = (db t).filter (stays t) := by
  refine Table.ext ?_ (h.next t)
  have hself : (db' t).rows.filter (stays t) = (db' t).rows := List.filter_eq_self.mpr ht
  rw [← hself, h.rows]
  rfl

theorem mem_of_stays (h : Progress stays fixed db db') {t : T} {r : S.RowOf t}
    (hr : r ∈ (db' t).rows) (hstays : stays t r = true) : r ∈ (db t).rows := by
  have hmem := List.mem_filter.mpr ⟨hr, hstays⟩
  rw [h.rows] at hmem
  exact List.mem_of_mem_filter hmem

theorem apart (h : Progress stays fixed db db') (ha : Apart stays doomed db) :
    Apart stays doomed db' := by
  intro fk hfk hdoomed r hr hstays i hi d' hd'
  obtain ⟨d, hd, hid, hkept⟩ := h.origin fk.parent d' (Table.get?_mem hd')
  have hget : (db fk.parent).get? i = some d := by
    rw [← Table.get?_id hd', ← hid]
    exact Table.get?_of_mem hd
  have hdstays := ha fk hfk hdoomed r (h.mem_of_stays hr hstays) hstays i hi d hget
  obtain rfl := hkept hdstays
  exact hdstays

end Progress

section

variable {stays : S.Selection} {doomed fixed : T → Prop}

/-- Rows that do not stay are removed from the doomed tables: cascades and the keys that are cleared
lead from doomed tables to doomed or changeable ones, and restricting keys do not lead to tables a
cascade reaches. -/
structure Removal (stays : S.Selection) (doomed fixed : T → Prop) : Prop where
  closed : ∀ fk ∈ S.keys, fk.onDelete = .cascade → doomed fk.parent → doomed fk.child
  not_doomed : ∀ t, fixed t → ¬doomed t
  not_cleared : ∀ fk ∈ S.keys, fixed fk.child → fk.onDelete = .setNull → ¬doomed fk.parent
  clear : ∀ t k r, stays t (S.clear t k r) = true → stays t r = true
  reach : ∀ fk ∈ S.keys, fk.onDelete = .restrict →
    ∀ fk' ∈ S.keys, fk'.onDelete = .cascade → fk'.child ≠ fk.parent

/-- No row that may go refers to the table through a restricting key. -/
def Unreferenced (stays : S.Selection) (db : S.Database) (t : T) : Prop :=
  ∀ fk ∈ S.keys, fk.onDelete = .restrict → fk.parent = t → ∀ r ∈ (db fk.child).rows,
    stays fk.child r = true ∨ S.ref fk.child r fk.column = none

/-- A cascade takes away rows that do not stay, of doomed tables. -/
theorem Apart.gone (h : Apart stays doomed db) (hrem : Removal stays doomed fixed)
    (hsel : ∀ t, ∀ r ∈ (db t).rows, sel t r = true → doomed t ∧ stays t r = false) (t : T) :
    ∀ r ∈ (db t).rows, gone db sel t r = true → doomed t ∧ stays t r = false := by
  have hall : ∀ n t, ∀ r ∈ (db t).rows, cascade db sel n t r = true →
      doomed t ∧ stays t r = false := by
    intro n
    induction n with
    | zero => exact hsel
    | succ n ih =>
      intro t r hr hgone
      rcases Bool.or_eq_true_iff.mp hgone with hgone | hgone
      · exact ih t r hr hgone
      · obtain ⟨fk, hfk, hcond⟩ := List.any_eq_true.mp hgone
        obtain ⟨rfl, hcascade, hpoints⟩ := of_decide_eq_true hcond
        obtain ⟨i, hi, d, hd, hdgone⟩ := points_iff.mp hpoints
        obtain ⟨hdoomed, hdstays⟩ := ih fk.parent d (Table.get?_mem hd) hdgone
        refine ⟨hrem.closed fk hfk hcascade hdoomed, ?_⟩
        by_contra hstays
        have := h fk hfk hdoomed r hr (by simpa using hstays) i hi d hd
        simp [hdstays] at this
  exact hall S.depth t

/-- A cascade stays within tables that are closed under cascading keys. -/
theorem gone_doomed
    (hclosed : ∀ fk ∈ S.keys, fk.onDelete = .cascade → doomed fk.parent → doomed fk.child)
    (hsel : ∀ t r, sel t r = true → doomed t) {t : T} {r : S.RowOf t}
    (h : Schema.gone db sel t r = true) : doomed t := by
  have hall : ∀ n t r, cascade db sel n t r = true → doomed t := by
    intro n
    induction n with
    | zero => exact hsel
    | succ n ih =>
      intro t r hgone
      rcases Bool.or_eq_true_iff.mp hgone with hgone | hgone
      · exact ih t r hgone
      · obtain ⟨fk, hfk, hcond⟩ := List.any_eq_true.mp hgone
        obtain ⟨rfl, hcascade, hpoints⟩ := of_decide_eq_true hcond
        obtain ⟨i, -, d, -, hdgone⟩ := points_iff.mp hpoints
        exact hclosed fk hfk hcascade (ih fk.parent d hdgone)
  exact hall S.depth t r h

/-- A table that no cascade reaches and no key of which is cleared is left as it is. -/
theorem deleted_same
    (hclosed : ∀ fk ∈ S.keys, fk.onDelete = .cascade → doomed fk.parent → doomed fk.child)
    (hsel : ∀ t r, sel t r = true → doomed t) {t : T} (ht : ¬doomed t)
    (hkeys : ∀ fk ∈ S.keys, fk.child = t → fk.onDelete = .setNull → ¬doomed fk.parent) :
    deleted db sel t = db t := by
  have hstay : ∀ r, Schema.gone db sel t r = false := fun r => by
    by_contra hgone
    exact ht (gone_doomed hclosed hsel (by simpa using hgone))
  have hsame : ∀ r, nullify db (Schema.gone db sel) t r = r := by
    intro r
    rw [nullify, List.filter_eq_nil_iff.mpr fun fk hfk hcond => ?_]
    · rfl
    · obtain ⟨hchild, hset, hpoints⟩ := of_decide_eq_true hcond
      obtain ⟨i, -, d, -, hdgone⟩ := points_iff.mp hpoints
      exact hkeys fk hfk hchild hset (gone_doomed hclosed hsel hdgone)
  refine Table.ext ?_ rfl
  change ((db t).rows.filter _).map _ = _
  rw [List.filter_eq_self.mpr fun r _ => by simp [hstay r],
    List.map_congr_left fun r _ => hsame r, List.map_id']

/-- What a delete of rows that do not stay leaves. -/
theorem Apart.progress (h : Apart stays doomed db) (hrem : Removal stays doomed fixed)
    (hdoomed : ∀ t r, sel t r = true → doomed t)
    (hgoes : ∀ t, ∀ r ∈ (db t).rows, sel t r = true → stays t r = false)
    (hfree : ¬Restricted db sel) : Progress stays fixed db (deleted db sel) := by
  have hgone := h.gone hrem fun t r hr hsel => ⟨hdoomed t r hsel, hgoes t r hr hsel⟩
  -- No reference of a row that stays is cleared.
  have hnull : ∀ t, ∀ r ∈ (db t).rows, stays t r = true →
      nullify db (Schema.gone db sel) t r = r := by
    intro t r hr hstays
    rw [nullify, List.filter_eq_nil_iff.mpr fun fk hfk hcond => ?_]
    · rfl
    · obtain ⟨rfl, -, hpoints⟩ := of_decide_eq_true hcond
      obtain ⟨i, hi, d, hd, hdgone⟩ := points_iff.mp hpoints
      obtain ⟨hparent, hdstays⟩ := hgone fk.parent d (Table.get?_mem hd) hdgone
      have := h fk hfk hparent r hr hstays i hi d hd
      simp [hdstays] at this
  have hback : ∀ t r, stays t (nullify db (Schema.gone db sel) t r) = true → stays t r = true := by
    intro t r
    unfold nullify
    generalize S.keys.filter _ = l
    induction l generalizing r with
    | nil => exact fun h => h
    | cons fk l ih => exact fun h => hrem.clear t fk.column r (ih _ h)
  refine
    { next := fun t => rfl
      rows := fun t => ?_
      origin := fun t r' hr' => ?_
      same := fun t ht => ?_
      valid := fun hv => hv.deleted hfree }
  · have hlist : ∀ l : List (S.RowOf t), (∀ r ∈ l, r ∈ (db t).rows) →
        (((l.filter fun r => !Schema.gone db sel t r).map
          (nullify db (Schema.gone db sel) t)).filter (stays t)) = l.filter (stays t) := by
      intro l hl
      induction l with
      | nil => rfl
      | cons r l ih =>
        have hr := hl r List.mem_cons_self
        have hrest := ih fun r hr => hl r (List.mem_cons_of_mem _ hr)
        cases hstays : stays t r with
        | true =>
          have hkept : Schema.gone db sel t r = false := by
            by_contra hrgone
            have := (hgone t r hr (by simpa using hrgone)).2
            simp [hstays] at this
          rw [List.filter_cons_of_pos (by simp [hkept]), List.map_cons, hnull t r hr hstays,
            List.filter_cons_of_pos hstays, List.filter_cons_of_pos hstays, hrest]
        | false =>
          rw [List.filter_cons_of_neg (p := stays t) (by simp [hstays]), ← hrest]
          by_cases hrgone : Schema.gone db sel t r = true
          · rw [List.filter_cons_of_neg (by simp [hrgone])]
          · rw [List.filter_cons_of_pos (by simpa using hrgone), List.map_cons,
              List.filter_cons_of_neg fun hcon => by simp [hback t r hcon] at hstays]
    exact hlist (db t).rows fun r hr => hr
  · obtain ⟨r, hr, -, rfl⟩ := mem_deleted.mp hr'
    exact ⟨r, hr, (id_nullify db _ t r).symm, fun hstays => hnull t r hr hstays⟩
  · refine deleted_same hrem.closed hdoomed (hrem.not_doomed t ht) fun fk hfk hchild hnull => ?_
    exact hrem.not_cleared fk hfk (hchild ▸ ht) hnull

/-- A delete of rows that do not stay from one table is not refused when no other row that may go
refers to the table through a restricting key. -/
theorem Apart.not_restricted (h : Apart stays doomed db) (hrem : Removal stays doomed fixed) {t : T}
    (ht : doomed t) {p : S.RowOf t → Bool}
    (hp : ∀ r ∈ (db t).rows, p r = true → stays t r = false) (hfree : Unreferenced stays db t) :
    ¬Restricted db (onTable t p) := by
  rintro ⟨fk, hfk, hrestrict, r, hr, hpoints⟩
  rw [points_congr (gone_of_no_cascade (hrem.reach fk hfk hrestrict))] at hpoints
  obtain ⟨i, hi, d, hd, hsel⟩ := points_iff.mp hpoints
  by_cases hparent : t = fk.parent
  · subst hparent
    rw [onTable_self] at hsel
    have hdgoes := hp d (Table.get?_mem hd) hsel
    rcases hfree fk hfk hrestrict rfl r hr with hstays | hnone
    · have := h fk hfk ht r hr hstays i hi d hd
      simp [hdgoes] at this
    · simp [hnone] at hi
  · rw [onTable_of_ne hparent] at hsel
    exact absurd hsel (by simp)

/-- Such a delete from one table. -/
theorem Apart.exists_delete {ε : Type} (e : ε) (h : Apart stays doomed db)
    (hrem : Removal stays doomed fixed) {t : T} (ht : doomed t) {p : S.RowOf t → Bool}
    (hp : ∀ r ∈ (db t).rows, p r = true → stays t r = false) (hfree : Unreferenced stays db t) :
    delete e db (onTable t p) = .ok (deleted db (onTable t p)) ∧
      Progress stays fixed db (deleted db (onTable t p)) := by
  have hrestrict := h.not_restricted hrem ht hp hfree
  refine ⟨delete_eq_ok.mpr ⟨hrestrict, rfl⟩, h.progress hrem (fun t' r hsel => ?_)
    (fun t' r hr hsel => ?_) hrestrict⟩
  · by_cases htt' : t = t'
    · exact htt' ▸ ht
    · simp [onTable_of_ne htt'] at hsel
  · by_cases htt' : t = t'
    · subst htt'
      rw [onTable_self] at hsel
      exact hp r hr hsel
    · simp [onTable_of_ne htt'] at hsel

/-- Deleting every row that does not stay purges the table. -/
theorem Progress.purged_of_deleted {t : T} {p : S.RowOf t → Bool}
    (h : Progress stays fixed db (deleted db (onTable t p)))
    (hp : ∀ r ∈ (db t).rows, stays t r = false → p r = true) :
    Purged stays (deleted db (onTable t p)) t := by
  intro r' hr'
  obtain ⟨r, hr, hkept, rfl⟩ := mem_deleted.mp hr'
  have hstays : stays t r = true := by
    by_contra hgoes
    have hsel : onTable t p t r = true := by
      rw [onTable_self]
      exact hp r hr (by simpa using hgoes)
    exact absurd (cascade_of_sel hsel S.depth) (by simpa [gone] using hkept)
  obtain ⟨r₀, hr₀, hid, hsame⟩ := h.origin t _ hr'
  have hrow : r₀ = r := Table.get?_inj (Table.get?_of_mem hr₀) (Table.get?_of_mem hr)
    (hid.trans (id_nullify db _ t r))
  rw [hsame (hrow ▸ hstays), hrow]
  exact hstays

/-- Such a delete adds no reference. -/
theorem Progress.unreferenced {t : T} (h : Progress stays fixed db (deleted db sel))
    (hfree : Unreferenced stays db t) : Unreferenced stays (deleted db sel) t := by
  intro fk hfk hrestrict hparent r' hr'
  obtain ⟨r, hr, -, rfl⟩ := mem_deleted.mp hr'
  rcases hfree fk hfk hrestrict hparent r hr with hstays | hnone
  · obtain ⟨r₀, hr₀, hid, hsame⟩ := h.origin fk.child _ hr'
    have hrow : r₀ = r := Table.get?_inj (Table.get?_of_mem hr₀) (Table.get?_of_mem hr)
      (hid.trans (id_nullify db _ fk.child r))
    rw [hsame (hrow ▸ hstays), hrow]
    exact .inl hstays
  · right
    rw [ref_nullify, hnone, ite_self]

/-- Deleting some row of a table leaves fewer rows there. -/
theorem length_deleted_lt {t : T} {p : S.RowOf t → Bool} {r : S.RowOf t} (hr : r ∈ (db t).rows)
    (hp : p r = true) :
    (deleted db (onTable t p) t).rows.length < (db t).rows.length := by
  have hgone : gone db (onTable t p) t r = true :=
    cascade_of_sel (by rw [onTable_self]; exact hp) S.depth
  change (((db t).rows.filter _).map _).length < _
  rw [List.length_map]
  exact List.length_filter_lt_length_iff_exists.mpr ⟨r, hr, by simp [hgone]⟩

/-! ### Tables in topological order -/

/-- Every table of the list comes after the tables that refer to it through a restricting key, where
some tables are done beforehand. -/
def Topological (keys : List (ForeignKey T C)) : List T → List T → Prop
  | _, [] => True
  | done, t :: order =>
      (∀ fk ∈ keys, fk.onDelete = .restrict → fk.parent = t → fk.child ∈ done) ∧
        Topological keys (t :: done) order

instance (keys : List (ForeignKey T C)) : ∀ done order : List T,
    Decidable (Topological keys done order)
  | _, [] => .isTrue trivial
  | done, t :: order =>
      have := instDecidableTopological keys (t :: done) order
      inferInstanceAs (Decidable (_ ∧ _))

/-- An operation that purges a table to which no row that may go refers. -/
def Erases {ε : Type} (stays : S.Selection) (doomed fixed : T → Prop)
    (erase : S.Database → T → Except ε S.Database) (t : T) : Prop :=
  ∀ db, Apart stays doomed db → Unreferenced stays db t →
    ∃ db', erase db t = .ok db' ∧ Progress stays fixed db db' ∧ Purged stays db' t

omit [DecidableEq T] in
theorem unreferenced_of_purged {done : List T} {t : T}
    (h : ∀ fk ∈ S.keys, fk.onDelete = .restrict → fk.parent = t → fk.child ∈ done)
    (hdone : ∀ c ∈ done, Purged stays db c) : Unreferenced stays db t :=
  fun fk hfk hrestrict hparent r hr => .inl (hdone fk.child (h fk hfk hrestrict hparent) r hr)

omit [DecidableEq T] in
/-- Purging tables in topological order succeeds. -/
theorem Topological.erase_all {ε : Type} {erase : S.Database → T → Except ε S.Database} :
    ∀ {order done : List T}, Topological S.keys done order →
      (∀ t ∈ order, Erases stays doomed fixed erase t) → ∀ {db : S.Database},
      Apart stays doomed db → (∀ c ∈ done, Purged stays db c) →
      ∃ db', order.foldlM erase db = .ok db' ∧ Progress stays fixed db db' ∧
        ∀ c, c ∈ done ∨ c ∈ order → Purged stays db' c
  | [], done, _, _, db, _, hdone =>
      ⟨db, rfl, Progress.refl db, fun c hc => hdone c (by simpa using hc)⟩
  | t :: order, done, htop, herase, db, hapart, hdone => by
      obtain ⟨db₁, herased, hprogress, hpurged⟩ := herase t List.mem_cons_self db hapart
        (unreferenced_of_purged htop.1 hdone)
      have hdone' : ∀ c ∈ t :: done, Purged stays db₁ c := by
        intro c hc
        rcases List.mem_cons.mp hc with rfl | hc
        · exact hpurged
        · exact hprogress.purged (hdone c hc)
      obtain ⟨db₂, hrest, hprogress', hall⟩ := htop.2.erase_all
        (fun c hc => herase c (List.mem_cons_of_mem _ hc)) (hprogress.apart hapart) hdone'
      refine ⟨db₂, ?_, hprogress.trans hprogress', fun c hc => hall c ?_⟩
      · rw [List.foldlM_cons, bind_of_ok herased]
        exact hrest
      · rcases hc with hc | hc
        · exact .inl (List.mem_cons_of_mem _ hc)
        · rcases List.mem_cons.mp hc with rfl | hc
          · exact .inl List.mem_cons_self
          · exact .inr hc

end

/-! ### Deletes that cascade once -/

section

variable {t₀ t : T} {p : S.RowOf t₀ → Bool}

/-- No key leads to a table whose rows go with rows of this one. -/
def Shallow (S : Schema T C) (t₀ : T) : Prop :=
  ∀ fk ∈ S.keys, fk.parent = t₀ → fk.onDelete = .cascade → ∀ fk' ∈ S.keys, fk'.parent ≠ fk.child

instance (t₀ : T) : Decidable (S.Shallow t₀) :=
  inferInstanceAs (Decidable (∀ fk ∈ S.keys, _ → _ → ∀ fk' ∈ S.keys, _))

theorem parent_of_points_onTable {fk : ForeignKey T C} {r : S.RowOf t}
    (h : points db (onTable t₀ p) fk t r = true) : fk.parent = t₀ := by
  obtain ⟨i, hi, d, hd, hsel⟩ := points_iff.mp h
  by_contra hparent
  rw [onTable_of_ne (Ne.symm hparent)] at hsel
  exact absurd hsel (by simp)

/-- A row that goes by a cascade is referred to by none, so that a row refers to one that goes
exactly when it refers to a selected one. -/
theorem Shallow.points_cascade (h : S.Shallow t₀) : ∀ n, ∀ fk ∈ S.keys, ∀ {t : T} (r : S.RowOf t),
    points db (cascade db (onTable t₀ p) n) fk t r = points db (onTable t₀ p) fk t r
  | 0, _, _, _, _ => rfl
  | n + 1, fk, hfk, _, r => by
      rw [← h.points_cascade n fk hfk r]
      refine points_congr fun d => Bool.or_eq_left_iff_imp.mpr fun hany => ?_
      obtain ⟨fk', hfk', hcond⟩ := List.any_eq_true.mp hany
      obtain ⟨hchild, hcascade, hpoints⟩ := of_decide_eq_true hcond
      rw [h.points_cascade n fk' hfk'] at hpoints
      exact absurd hchild.symm (h fk' hfk' (parent_of_points_onTable hpoints) hcascade fk hfk)

theorem Shallow.points_gone (h : S.Shallow t₀) {fk : ForeignKey T C} (hfk : fk ∈ S.keys)
    (r : S.RowOf t) : points db (gone db (onTable t₀ p)) fk t r = points db (onTable t₀ p) fk t r :=
  h.points_cascade S.depth fk hfk r

/-- The delete is refused when a row refers to a selected one through a restricting key. -/
theorem Shallow.restricted_iff (h : S.Shallow t₀) : Restricted db (onTable t₀ p) ↔
    ∃ fk ∈ S.keys, fk.onDelete = .restrict ∧ fk.parent = t₀ ∧
      ∃ r ∈ (db fk.child).rows, points db (onTable t₀ p) fk fk.child r = true := by
  refine exists_congr fun fk => and_congr_right fun hfk => and_congr_right fun _ => ?_
  constructor
  · rintro ⟨r, hr, hpoints⟩
    rw [h.points_gone hfk] at hpoints
    exact ⟨parent_of_points_onTable hpoints, r, hr, hpoints⟩
  · rintro ⟨-, r, hr, hpoints⟩
    exact ⟨r, hr, (h.points_gone hfk r).trans hpoints⟩

/-- The keys between two tables. -/
def keysTo (S : Schema T C) (t t₀ : T) : List (ForeignKey T C) :=
  S.keys.filter fun fk => fk.child = t ∧ fk.parent = t₀

theorem mem_keysTo {fk : ForeignKey T C} :
    fk ∈ S.keysTo t t₀ ↔ fk ∈ S.keys ∧ fk.child = t ∧ fk.parent = t₀ := by
  simp [keysTo]

/-- What goes by a cascade refers to a selected row through a key between the two tables. -/
theorem Shallow.gone_of_ne (h : S.Shallow t₀) (ht : t₀ ≠ t) (hdepth : 0 < S.depth) (r : S.RowOf t) :
    gone db (onTable t₀ p) t r = (S.keysTo t t₀).any fun fk =>
      fk.onDelete = .cascade ∧ points db (onTable t₀ p) fk t r := by
  have hstep : ∀ n, (S.keys.any fun fk => fk.child = t ∧ fk.onDelete = .cascade ∧
      points db (cascade db (onTable t₀ p) n) fk t r) = (S.keysTo t t₀).any fun fk =>
        fk.onDelete = .cascade ∧ points db (onTable t₀ p) fk t r := by
    intro n
    rw [Bool.eq_iff_iff, List.any_eq_true, List.any_eq_true]
    simp only [decide_eq_true_eq]
    constructor
    · rintro ⟨fk, hfk, hchild, hkind, hpoints⟩
      rw [h.points_cascade n fk hfk] at hpoints
      exact ⟨fk, mem_keysTo.mpr ⟨hfk, hchild, parent_of_points_onTable hpoints⟩, hkind, hpoints⟩
    · rintro ⟨fk, hfk, hkind, hpoints⟩
      obtain ⟨hmem, hchild, -⟩ := mem_keysTo.mp hfk
      exact ⟨fk, hmem, hchild, hkind, (h.points_cascade n fk hmem r).trans hpoints⟩
  have hcascade : ∀ n, cascade db (onTable t₀ p) (n + 1) t r = (S.keysTo t t₀).any fun fk =>
      fk.onDelete = .cascade ∧ points db (onTable t₀ p) fk t r := by
    intro n
    induction n with
    | zero => rw [cascade_succ, hstep, cascade, onTable_of_ne ht, Bool.false_or]
    | succ n ih => rw [cascade_succ, hstep, ih, Bool.or_self]
  obtain ⟨n, hn⟩ := Nat.exists_eq_succ_of_ne_zero hdepth.ne'
  rw [gone, hn, hcascade]

/-- What is cleared refers to a selected row through a key between the two tables. -/
theorem Shallow.nullify_gone (h : S.Shallow t₀) (r : S.RowOf t) :
    nullify db (gone db (onTable t₀ p)) t r =
      ((S.keysTo t t₀).filter fun fk =>
        fk.onDelete = .setNull ∧ points db (onTable t₀ p) fk t r).foldl
        (fun r' fk => S.clear t fk.column r') r := by
  refine congrArg (fun l =>
    List.foldl (fun r' (fk : ForeignKey T C) => S.clear t fk.column r') r l) ?_
  rw [keysTo, List.filter_filter]
  refine List.filter_congr fun fk hfk => ?_
  rw [h.points_gone hfk, ← Bool.decide_and, decide_eq_decide]
  exact ⟨fun ⟨hchild, hkind, hpoints⟩ =>
    ⟨⟨hkind, hpoints⟩, hchild, parent_of_points_onTable hpoints⟩,
    fun ⟨⟨hkind, hpoints⟩, hchild, _⟩ => ⟨hchild, hkind, hpoints⟩⟩

theorem deleted_eq_of {f : S.RowOf t → S.RowOf t} (hf : ∀ r, Row.id (f r) = Row.id r)
    {g : S.RowOf t → Bool} (hg : ∀ r, gone db sel t r = g r)
    (hn : ∀ r, nullify db (gone db sel) t r = f r) :
    deleted db sel t = ((db t).filter fun r => !g r).mapRows f hf := by
  obtain rfl : gone db sel t = g := funext hg
  obtain rfl : nullify db (gone db sel) t = f := funext hn
  rfl

/-- A table that does not refer to the one whose rows are selected, or only through restricting
keys, is as before. -/
theorem Shallow.deleted_of_restrict (h : S.Shallow t₀) (hdepth : 0 < S.depth) (ht : t₀ ≠ t)
    (hkeys : ∀ fk ∈ S.keysTo t t₀, fk.onDelete = .restrict) :
    deleted db (onTable t₀ p) t = db t := by
  refine (deleted_eq_of (f := id) (fun _ => rfl) (g := fun _ => false) (fun r => ?_)
    fun r => ?_).trans ?_
  · rw [h.gone_of_ne ht hdepth, List.any_eq_false]
    intro fk hfk
    simp [hkeys fk hfk]
  · rw [h.nullify_gone, List.filter_eq_nil_iff.mpr fun fk hfk => by simp [hkeys fk hfk]]
    rfl
  · exact Table.ext (by simp [Table.filter, Table.mapRows]) rfl

/-- A table with one cascading key loses the rows that refer to a selected one. -/
theorem Shallow.deleted_of_cascade (h : S.Shallow t₀) (hdepth : 0 < S.depth) (ht : t₀ ≠ t)
    {fk : ForeignKey T C} (hkeys : S.keysTo t t₀ = [fk]) (hkind : fk.onDelete = .cascade) :
    deleted db (onTable t₀ p) t = (db t).filter fun r => !points db (onTable t₀ p) fk t r := by
  refine (deleted_eq_of (f := id) (fun _ => rfl)
    (g := fun r => points db (onTable t₀ p) fk t r) (fun r => ?_) fun r => ?_).trans ?_
  · simp [h.gone_of_ne ht hdepth, hkeys, hkind]
  · simp [h.nullify_gone, hkeys, hkind]
  · exact Table.ext (by simp [Table.mapRows]) rfl

/-- A table with one clearing key loses the references to the selected rows. -/
theorem Shallow.deleted_of_setNull (h : S.Shallow t₀) (hdepth : 0 < S.depth) (ht : t₀ ≠ t)
    {fk : ForeignKey T C} (hkeys : S.keysTo t t₀ = [fk]) (hkind : fk.onDelete = .setNull)
    {f : S.RowOf t → S.RowOf t} (hf : ∀ r, Row.id (f r) = Row.id r)
    (hclear : ∀ r, f r = if points db (onTable t₀ p) fk t r then S.clear t fk.column r else r) :
    deleted db (onTable t₀ p) t = (db t).mapRows f hf := by
  refine (deleted_eq_of hf (g := fun _ => false) (fun r => ?_) fun r => ?_).trans ?_
  · simp [h.gone_of_ne ht hdepth, hkeys, hkind]
  · rw [h.nullify_gone, hkeys, hclear]
    by_cases hpoints : points db (onTable t₀ p) fk t r
    · simp [hkind, hpoints]
    · simp [hpoints]
  · exact Table.ext (by simp [Table.filter, Table.mapRows]) rfl

/-- The table itself loses the selected rows when it does not refer to itself. -/
theorem Shallow.deleted_self (h : S.Shallow t₀) (hkeys : S.keysTo t₀ t₀ = []) :
    deleted db (onTable t₀ p) t₀ = (db t₀).filter fun r => !p r := by
  have hgone : ∀ r, gone db (onTable t₀ p) t₀ r = p r := by
    have hcascade : ∀ n r, cascade db (onTable t₀ p) n t₀ r = p r := by
      intro n r
      induction n with
      | zero => rw [cascade, onTable_self]
      | succ n ih =>
        rw [cascade_succ, ih, Bool.or_eq_left_iff_imp]
        intro hany
        obtain ⟨fk, hfk, hcond⟩ := List.any_eq_true.mp hany
        obtain ⟨hchild, -, hpoints⟩ := of_decide_eq_true hcond
        rw [h.points_cascade n fk hfk] at hpoints
        have hmem := mem_keysTo.mpr ⟨hfk, hchild, parent_of_points_onTable hpoints⟩
        rw [hkeys] at hmem
        cases hmem
    exact hcascade S.depth
  refine (deleted_eq_of (f := id) (fun _ => rfl) hgone fun r => ?_).trans ?_
  · rw [h.nullify_gone, hkeys]
    rfl
  · exact Table.ext (by simp [Table.mapRows]) rfl

end

end Schema

end Pfv
