import Mathlib.Tactic

/-!
# Fields of a text

Texts whose fields stand between separators, as lists of characters of any type: cutting at the
first separator, and splitting a bounded number of times.

## Main definitions

* `cutAt`: a list cut at the first occurrence of a separator.
* `splitMax`: a list split at the first occurrences of a separator, at most as often as given.

## Main results

* `append_of_cutAt`: the parts make up the list.
* `notMem_of_mem_splitOn`: fields lack their separator.
* `cutAt_append_of_notMem`, `cutAt_pair_iff`: when a list that was put together is cut where it was
  joined.
-/

namespace Pfv

variable {α : Type*} [DecidableEq α]

/-- Cut a list at the first occurrence of a separator. -/
def cutAt (sep : List α) : List α → Option (List α × List α)
  | [] => if sep = [] then some ([], []) else none
  | c :: cs =>
      if sep <+: c :: cs then some ([], (c :: cs).drop sep.length)
      else (cutAt sep cs).map fun p => (c :: p.1, p.2)

/-- Split a list at the first occurrences of a separator, at most `n` of them. -/
def splitMax (sep : List α) : ℕ → List α → List (List α)
  | 0, s => [s]
  | n + 1, s =>
      match cutAt sep s with
      | none => [s]
      | some (field, rest) => field :: splitMax sep n rest

variable {sep s a b : List α}

theorem splitMax_of_cutAt {n : ℕ} (h : cutAt sep s = some (a, b)) :
    splitMax sep (n + 1) s = a :: splitMax sep n b := by
  rw [splitMax, h]

theorem cutAt_cons_of_not_begins {c : α} (h : ¬sep <+: c :: s) :
    cutAt sep (c :: s) = (cutAt sep s).map fun p => (c :: p.1, p.2) := by
  rw [cutAt, if_neg h]

/-- A list is made of its two parts and the separator between them. -/
theorem append_of_cutAt (h : cutAt sep s = some (a, b)) : s = a ++ (sep ++ b) := by
  induction s generalizing a b with
  | nil =>
    by_cases hsep : sep = []
    · rw [cutAt, if_pos hsep, Option.some.injEq, Prod.mk.injEq] at h
      rw [hsep, ← h.1, ← h.2]
      rfl
    · rw [cutAt, if_neg hsep] at h
      cases h
  | cons c s ih =>
    by_cases hbegins : sep <+: c :: s
    · rw [cutAt, if_pos hbegins, Option.some.injEq, Prod.mk.injEq] at h
      obtain ⟨rest, hrest⟩ := hbegins
      rw [← h.1, ← h.2, ← hrest, List.drop_left, List.nil_append]
    · rw [cutAt_cons_of_not_begins hbegins, Option.map_eq_some_iff] at h
      obtain ⟨⟨a', b'⟩, hcut, heq⟩ := h
      rw [Prod.mk.injEq] at heq
      rw [ih hcut, ← heq.1, ← heq.2]
      rfl

theorem cutAt_append {sep : List α} (hsep : sep ≠ []) (b : List α) :
    cutAt sep (sep ++ b) = some ([], b) := by
  obtain ⟨x, sep, rfl⟩ := List.exists_cons_of_ne_nil hsep
  rw [List.cons_append, cutAt, if_pos (by rw [← List.cons_append]; exact List.prefix_append ..),
    ← List.cons_append, List.drop_left]

theorem isSome_cutAt_append (sep a b : List α) : (cutAt sep (a ++ (sep ++ b))).isSome = true := by
  induction a with
  | nil =>
    by_cases hsep : sep = []
    · subst hsep
      cases b <;> simp [cutAt]
    · rw [List.nil_append, cutAt_append hsep, Option.isSome_some]
  | cons c a ih =>
    rw [List.cons_append, cutAt]
    split_ifs
    · rfl
    · rw [Option.isSome_map, ih]

/-- A list is cut behind a first part that lacks the head of the separator. -/
theorem cutAt_append_of_notMem {x : α} {sep : List α} (h : x ∉ a) (b : List α) :
    cutAt (x :: sep) (a ++ ((x :: sep) ++ b)) = some (a, b) := by
  induction a with
  | nil => exact cutAt_append (List.cons_ne_nil x sep) b
  | cons c a ih =>
    rw [List.mem_cons, not_or] at h
    have hbegins : ¬(x :: sep) <+: c :: (a ++ ((x :: sep) ++ b)) := fun hp =>
      h.1 (List.cons_prefix_cons.mp hp).1
    rw [List.cons_append, cutAt_cons_of_not_begins hbegins, ih h.2, Option.map_some]

/-- A separator of two equal characters cuts a list where it was put in if and only if the first
part neither contains the separator nor ends with its character. -/
theorem cutAt_pair_iff {x : α} : cutAt [x, x] (a ++ ([x, x] ++ b)) = some (a, b) ↔
    ¬[x, x] <:+: a ∧ ¬[x] <:+ a := by
  induction a with
  | nil =>
    rw [List.nil_append, cutAt_append (List.cons_ne_nil x [x])]
    simp
  | cons c a ih =>
    rw [List.cons_append]
    by_cases hbegins : [x, x] <+: c :: (a ++ ([x, x] ++ b))
    · -- The separator begins at once: in the first part, or with its last character.
      rw [cutAt, if_pos hbegins]
      obtain ⟨rfl, hhead⟩ := List.cons_prefix_cons.mp hbegins
      refine iff_of_false (by simp) fun h => ?_
      cases a with
      | nil => exact h.2 List.suffix_rfl
      | cons d a =>
        obtain ⟨rfl, -⟩ := List.cons_prefix_cons.mp hhead
        exact h.1 (List.IsPrefix.isInfix ⟨a, rfl⟩)
    · rw [cutAt_cons_of_not_begins hbegins, Option.map_eq_some_iff]
      have hcut :
          (∃ p, cutAt [x, x] (a ++ ([x, x] ++ b)) = some p ∧ (c :: p.1, p.2) = (c :: a, b)) ↔
          cutAt [x, x] (a ++ ([x, x] ++ b)) = some (a, b) := by
        simp [Prod.ext_iff]
      have hsuffix : [x] <:+ c :: a ↔ [x] <:+ a := by
        rw [List.suffix_cons_iff]
        refine or_iff_right fun h => hbegins ?_
        rw [List.cons.injEq] at h
        rw [← h.1, ← h.2]
        exact ⟨x :: b, rfl⟩
      have hinfix : [x, x] <:+: c :: a ↔ [x, x] <:+: a := by
        rw [List.infix_cons_iff]
        refine or_iff_right fun h => hbegins ?_
        exact h.trans (List.prefix_append (c :: a) ([x, x] ++ b))
      rw [hcut, ih, hsuffix, hinfix]

/-- The fields between single separators lack it. -/
theorem notMem_of_mem_splitOn {x : α} (h : a ∈ s.splitOn x) : x ∉ a := by
  induction s generalizing a with
  | nil =>
    rw [List.splitOn_nil, List.mem_singleton] at h
    rw [h]
    exact List.not_mem_nil
  | cons c s ih =>
    rw [List.splitOn_cons_eq_if_modifyHead] at h
    split_ifs at h with hc
    · rcases List.mem_cons.mp h with rfl | h
      · exact List.not_mem_nil
      · exact ih h
    · obtain ⟨field, fields, hfields⟩ := List.exists_cons_of_ne_nil (List.splitOn_ne_nil x s)
      rw [hfields, List.modifyHead_cons] at h
      rw [hfields] at ih
      rcases List.mem_cons.mp h with rfl | h
      · rw [List.mem_cons, not_or]
        exact ⟨fun heq => hc (by simp [heq]), ih List.mem_cons_self⟩
      · exact ih (List.mem_cons_of_mem field h)

end Pfv
