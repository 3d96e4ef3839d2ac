import Pfv.Base.ForeignKeys

/-!
# Redirecting references

Before a row is deleted, the rows that refer to it can be made to refer to another one, a column at
a time. When every column that refers to the table is redirected, the delete takes the row and
nothing else; a column that is left out loses its rows or its references, or refuses the delete.

## Main definitions

* `Schema.Setter`: how a reference is written, for the columns where it can be.
* `Schema.Setter.update`: the statement that redirects one column.
* `Schema.Setter.redirectAll`: a row after its references were redirected.

## Main results

* `Schema.Setter.foldlM_update`: the statements one after the other succeed when the new row is
  there.
* `Schema.Setter.valid_redirected`: they keep every foreign key satisfied.
* `Schema.deleted_of_unreferenced`: a row nothing refers to is deleted alone.
-/

namespace Pfv

namespace Schema

variable {T C : Type} [DecidableEq C] [DecidableEq T] (S : Schema T C)

/-- A way to write references into the rows of a schema, and the columns where it works. -/
structure Setter where
  set : ∀ t, C → ℕ → S.RowOf t → S.RowOf t
  columns : List (T × C)
  id_set : ∀ t k n r, Row.id (set t k n r) = Row.id r
  ref_set : ∀ p ∈ columns, ∀ n r k,
    S.ref p.1 (set p.1 p.2 n r) k = if k = p.2 then some n else S.ref p.1 r k

variable {S}

namespace Setter

variable (W : S.Setter)

/-- A row after its reference through a column was redirected. -/
def redirect (source target : ℕ) (t : T) (k : C) (r : S.RowOf t) : S.RowOf t :=
  if S.ref t r k = some source then W.set t k target r else r

/-- A row after its references through some columns were redirected. -/
def redirectAll (source target : ℕ) (columns : List (T × C)) (t : T) (r : S.RowOf t) : S.RowOf t :=
  columns.foldl (fun r' p => if p.1 = t then W.redirect source target t p.2 r' else r') r

omit [DecidableEq T] in
theorem id_redirect (source target : ℕ) (t : T) (k : C) (r : S.RowOf t) :
    Row.id (W.redirect source target t k r) = Row.id r := by
  unfold redirect
  split_ifs
  · exact W.id_set t k target r
  · rfl

theorem id_redirectAll (source target : ℕ) (columns : List (T × C)) (t : T) (r : S.RowOf t) :
    Row.id (W.redirectAll source target columns t r) = Row.id r := by
  induction columns generalizing r with
  | nil => rfl
  | cons p columns ih =>
    refine (ih _).trans ?_
    show Row.id (if p.1 = t then W.redirect source target t p.2 r else r) = Row.id r
    split_ifs
    · exact W.id_redirect source target t p.2 r
    · rfl

/-- The tables after some columns were redirected. -/
def redirected (source target : ℕ) (columns : List (T × C)) (db : S.Database) : S.Database :=
  fun t =>
  (db t).mapRows (W.redirectAll source target columns t) (W.id_redirectAll source target columns t)

/-- The statement that redirects a column. It is refused when a row would refer to a row of the
parent table that is not there. -/
def update {ε : Type} (e : ε) (parent : T) (source target : ℕ) (db : S.Database) (p : T × C) :
    Except ε S.Database := do
  raiseIf ((db parent).get? target = none ∧ ∃ r ∈ (db p.1).rows, S.ref p.1 r p.2 = some source) e
  pure (W.redirected source target [p] db)

variable {W} {db : S.Database} {source target : ℕ} {columns : List (T × C)}

theorem get?_redirected (t : T) (i : ℕ) :
    (W.redirected source target columns db t).get? i =
      ((db t).get? i).map (W.redirectAll source target columns t) :=
  Table.get?_mapRows _ _ _ i

theorem redirected_nil : W.redirected source target [] db = db :=
  funext fun _ => Table.ext (List.map_id _) rfl

theorem redirected_redirected (p : T × C) :
    W.redirected source target columns (W.redirected source target [p] db) =
      W.redirected source target (p :: columns) db := by
  refine funext fun t => Table.ext ?_ rfl
  change ((db t).rows.map _).map _ = (db t).rows.map _
  rw [List.map_map]
  rfl

/-- The statements one after the other succeed when the new row is there. -/
theorem foldlM_update {ε : Type} (e : ε) {parent : T}
    (htarget : ((db parent).get? target).isSome = true) :
    columns.foldlM (W.update e parent source target) db =
      .ok (W.redirected source target columns db) := by
  induction columns generalizing db with
  | nil => exact congrArg Except.ok redirected_nil.symm
  | cons p columns ih =>
    have hstep : W.update e parent source target db p =
        .ok (W.redirected source target [p] db) := by
      unfold update
      rw [raiseIf_bind_eq_ok, pure_eq_ok]
      refine ⟨fun h => ?_, rfl⟩
      rw [h.1] at htarget
      exact absurd htarget (by simp)
    rw [List.foldlM_cons, bind_of_ok hstep, ih, redirected_redirected]
    rw [get?_redirected, Option.isSome_map]
    exact htarget

/-- What a row refers to after some of its references were redirected. -/
theorem ref_redirectAll (hcolumns : ∀ p ∈ columns, p ∈ W.columns) (t : T) (r : S.RowOf t) (k : C) :
    S.ref t (W.redirectAll source target columns t r) k =
      if (t, k) ∈ columns ∧ S.ref t r k = some source then some target else S.ref t r k := by
  induction columns generalizing r with
  | nil => simp [redirectAll]
  | cons p columns ih =>
    have hrest := ih fun q hq => hcolumns q (List.mem_cons_of_mem _ hq)
    obtain ⟨t', k'⟩ := p
    change S.ref t (W.redirectAll source target columns t
      (if t' = t then W.redirect source target t k' r else r)) k = _
    rw [hrest]
    by_cases ht : t' = t
    · subst ht
      rw [if_pos rfl]
      have hset := W.ref_set (t', k') (hcolumns _ List.mem_cons_self) target r k
      by_cases hsource : S.ref t' r k' = some source
      · have hredirect : W.redirect source target t' k' r = W.set t' k' target r := if_pos hsource
        rw [hredirect, hset]
        by_cases hk : k = k'
        · subst hk
          simp [hsource]
        · simp [hk]
      · have hredirect : W.redirect source target t' k' r = r := if_neg hsource
        rw [hredirect]
        by_cases hk : k = k'
        · subst hk
          simp [hsource]
        · simp [hk]
    · rw [if_neg ht]
      simp [Ne.symm ht]

/-- A row without such a reference is left as it is. -/
theorem redirectAll_of_not {t : T} {r : S.RowOf t}
    (h : ∀ k, (t, k) ∈ columns → S.ref t r k ≠ some source) :
    W.redirectAll source target columns t r = r := by
  induction columns with
  | nil => rfl
  | cons p columns ih =>
    obtain ⟨t', k'⟩ := p
    change W.redirectAll source target columns t
      (if t' = t then W.redirect source target t k' r else r) = r
    have hsame : (if t' = t then W.redirect source target t k' r else r) = r := by
      split_ifs with ht
      · subst ht
        exact if_neg (h k' List.mem_cons_self)
      · rfl
    rw [hsame]
    exact ih fun k hk => h k (List.mem_cons_of_mem _ hk)

/-- Redirecting references to one table keeps every foreign key satisfied. -/
theorem valid_redirected {parent : T} (h : Valid db)
    (htarget : ((db parent).get? target).isSome = true)
    (hcolumns : ∀ p ∈ columns, p ∈ W.columns)
    (hparent : ∀ fk ∈ S.keys, (fk.child, fk.column) ∈ columns → fk.parent = parent) :
    Valid (W.redirected source target columns db) := by
  intro fk hfk r' hr' i hi
  obtain ⟨r, hr, rfl⟩ := List.mem_map.mp hr'
  rw [Option.mem_def, ref_redirectAll hcolumns] at hi
  rw [get?_redirected, Option.isSome_map]
  split_ifs at hi with hredirected
  · obtain rfl := Option.some_inj.mp hi
    rw [hparent fk hfk hredirected.1]
    exact htarget
  · exact h fk hfk r hr i hi

end Setter

/-! ### Deleting a row nothing refers to -/

variable {db : S.Database} {sel : S.Selection} {t₀ : T}

/-- No row refers to a selected row of the table through a key of the given kinds. -/
def Unpointed (db : S.Database) (sel : S.Selection) (kinds : OnDelete → Prop) : Prop :=
  ∀ fk ∈ S.keys, kinds fk.onDelete → ∀ r ∈ (db fk.child).rows, points db sel fk fk.child r = false

/-- A delete takes the selected rows alone when no row cascades from them. -/
theorem gone_of_unpointed (h : Unpointed db sel (· = .cascade)) {t : T} {r : S.RowOf t}
    (hr : r ∈ (db t).rows) : gone db sel t r = sel t r := by
  have hall : ∀ n t, ∀ r ∈ (db t).rows, cascade db sel n t r = sel t r := by
    intro n
    induction n with
    | zero => exact fun _ _ _ => rfl
    | succ n ih =>
      intro t r hr
      refine Eq.trans ((Bool.or_eq_left_iff_imp).mpr fun hany => ?_) (ih t r hr)
      obtain ⟨fk, hfk, hcond⟩ := List.any_eq_true.mp hany
      obtain ⟨rfl, hcascade, hpoints⟩ := of_decide_eq_true hcond
      obtain ⟨i, hi, d, hd, hgone⟩ := points_iff.mp hpoints
      rw [ih fk.parent d (Table.get?_mem hd)] at hgone
      have := points_iff.mpr ⟨i, hi, d, hd, hgone⟩
      rw [h fk hfk hcascade r hr] at this
      exact absurd this (by simp)
  exact hall S.depth t r hr

/-- What is pointed to then. -/
theorem points_gone (h : Unpointed db sel (· = .cascade)) (fk : ForeignKey T C) {t : T}
    (r : S.RowOf t) : points db (gone db sel) fk t r = points db sel fk t r := by
  rw [Bool.eq_iff_iff, points_iff, points_iff]
  refine exists_congr fun i => and_congr_right fun _ => exists_congr fun d => ?_
  refine and_congr_right fun hd => ?_
  rw [gone_of_unpointed h (Table.get?_mem hd)]

/-- A row nothing refers to is deleted alone. -/
theorem deleted_of_unreferenced (h : Unpointed db sel fun _ => True) :
    ¬Restricted db sel ∧ ∀ t, deleted db sel t = (db t).filter fun r => !sel t r := by
  have hcascade : Unpointed db sel (· = .cascade) := fun fk hfk _ => h fk hfk trivial
  constructor
  · rintro ⟨fk, hfk, -, r, hr, hpoints⟩
    rw [points_gone hcascade, h fk hfk trivial r hr] at hpoints
    exact absurd hpoints (by simp)
  · intro t
    refine Table.ext ?_ rfl
    change ((db t).rows.filter _).map _ = (db t).rows.filter _
    rw [List.filter_congr fun r hr => by rw [gone_of_unpointed hcascade hr]]
    refine (List.map_congr_left fun r hr => ?_).trans (List.map_id _)
    rw [nullify, List.filter_eq_nil_iff.mpr fun fk hfk hcond => ?_]
    · rfl
    · obtain ⟨rfl, -, hpoints⟩ := of_decide_eq_true hcond
      rw [points_gone hcascade, h fk hfk trivial r (List.mem_of_mem_filter hr)] at hpoints
      exact absurd hpoints (by simp)

end Schema

end Pfv
