import Mathlib.Tactic

/-!
# Turns that fall due

Something that falls due again and again: each turn has a time, and the next one is later. Draining
the backlog up to a time takes the turns that are due, one after another, and stops at the first
that is not. This file has the two results of draining and how they behave when the backlog is
drained in several runs.

## Main definitions

* `Schedule`: turns with their times.
* `Schedule.due`: the turns that are due at a time; `Schedule.rest`: the first that is not.

## Main results

* `Schedule.lt_rest`: draining ends after the time.
* `Schedule.rest_rest`, `Schedule.due_append`: draining in two runs is draining in one.
-/

namespace Pfv

/-- Turns with their times, each before the next. -/
structure Schedule (α : Type) where
  next : α → α
  time : α → ℕ
  time_lt : ∀ a, time a < time (next a)

namespace Schedule

variable {α : Type} (s : Schedule α)

/-- The turns that are due at a time, of the first `fuel`. -/
def dueWithin (t : ℕ) : ℕ → α → List α
  | 0, _ => []
  | fuel + 1, a => if s.time a ≤ t then a :: dueWithin t fuel (s.next a) else []

/-- The first turn that is not due at a time, or the one after `fuel` turns. -/
def restWithin (t : ℕ) : ℕ → α → α
  | 0, a => a
  | fuel + 1, a => if s.time a ≤ t then restWithin t fuel (s.next a) else a

/-- The turns from `a` on that are due at a time: times are whole, so there are at most as many as
there are times left. -/
def due (t : ℕ) (a : α) : List α :=
  s.dueWithin t (t + 1 - s.time a) a

/-- The first turn from `a` on that is not due at a time. -/
def rest (t : ℕ) (a : α) : α :=
  s.restWithin t (t + 1 - s.time a) a

variable {s} {t t' : ℕ} {a b : α}

/-- More fuel than there are times left changes nothing. -/
theorem dueWithin_eq {fuel : ℕ} (h : t + 1 - s.time a ≤ fuel) :
    s.dueWithin t fuel a = s.due t a := by
  suffices hboth : ∀ (m n : ℕ) (a : α), t + 1 - s.time a ≤ m → t + 1 - s.time a ≤ n →
      s.dueWithin t m a = s.dueWithin t n a from hboth _ _ a h le_rfl
  intro m
  induction m with
  | zero =>
    intro n a hm _
    cases n with
    | zero => rfl
    | succ n => exact (if_neg (by omega)).symm
  | succ m ih =>
    intro n a hm hn
    cases n with
    | zero => exact if_neg (by omega)
    | succ n =>
      have hlater := s.time_lt a
      unfold dueWithin
      split_ifs with hdue
      · rw [ih n (s.next a) (by omega) (by omega)]
      · rfl

theorem restWithin_eq {fuel : ℕ} (h : t + 1 - s.time a ≤ fuel) :
    s.restWithin t fuel a = s.rest t a := by
  suffices hboth : ∀ (m n : ℕ) (a : α), t + 1 - s.time a ≤ m → t + 1 - s.time a ≤ n →
      s.restWithin t m a = s.restWithin t n a from hboth _ _ a h le_rfl
  intro m
  induction m with
  | zero =>
    intro n a hm _
    cases n with
    | zero => rfl
    | succ n => exact (if_neg (by omega)).symm
  | succ m ih =>
    intro n a hm hn
    cases n with
    | zero => exact if_neg (by omega)
    | succ n =>
      have hlater := s.time_lt a
      unfold restWithin
      split_ifs with hdue
      · exact ih n (s.next a) (by omega) (by omega)
      · rfl

/-- A turn that is due is taken. -/
theorem due_of_le (h : s.time a ≤ t) : s.due t a = a :: s.due t (s.next a) := by
  have hlater := s.time_lt a
  obtain ⟨n, hn⟩ : ∃ n, t + 1 - s.time a = n + 1 := ⟨t - s.time a, by omega⟩
  rw [due, hn, dueWithin, if_pos h, dueWithin_eq (by omega)]

theorem due_of_lt (h : t < s.time a) : s.due t a = [] := by
  rw [due, show t + 1 - s.time a = 0 by omega, dueWithin]

theorem rest_of_le (h : s.time a ≤ t) : s.rest t a = s.rest t (s.next a) := by
  have hlater := s.time_lt a
  obtain ⟨n, hn⟩ : ∃ n, t + 1 - s.time a = n + 1 := ⟨t - s.time a, by omega⟩
  rw [rest, hn, restWithin, if_pos h, restWithin_eq (by omega)]

theorem rest_of_lt (h : t < s.time a) : s.rest t a = a := by
  rw [rest, show t + 1 - s.time a = 0 by omega, restWithin]

/-- Induction along the backlog: the turns that are not due, and from each due turn to the one
before it. -/
theorem induction_due {motive : α → Prop} (t : ℕ) (later : ∀ a, t < s.time a → motive a)
    (due : ∀ a, s.time a ≤ t → motive (s.next a) → motive a) (a : α) : motive a := by
  induction hn : t + 1 - s.time a using Nat.strong_induction_on generalizing a with
  | _ n ih =>
    by_cases h : s.time a ≤ t
    · have hlater := s.time_lt a
      exact due a h (ih _ (by omega) (s.next a) rfl)
    · exact later a (by omega)

/-- Draining ends after the time. -/
theorem lt_rest (t : ℕ) (a : α) : t < s.time (s.rest t a) := by
  induction a using s.induction_due t with
  | later a h => rwa [rest_of_lt h]
  | due a h ih => rwa [rest_of_le h]

/-- Draining twice leaves what draining once to the later time leaves. -/
theorem rest_rest (h : t ≤ t') (a : α) : s.rest t' (s.rest t a) = s.rest t' a := by
  induction a using s.induction_due t with
  | later a ha => rw [rest_of_lt ha]
  | due a ha ih => rw [rest_of_le ha, ih, rest_of_le (ha.trans h)]

/-- The turns drained in two runs are those drained in one. -/
theorem due_append (h : t ≤ t') (a : α) : s.due t a ++ s.due t' (s.rest t a) = s.due t' a := by
  induction a using s.induction_due t with
  | later a ha => rw [due_of_lt ha, rest_of_lt ha, List.nil_append]
  | due a ha ih =>
    rw [due_of_le ha, rest_of_le ha, due_of_le (ha.trans h), List.cons_append, ih]

/-- Every turn that is due lies between the first and the time. -/
theorem time_mem_due (h : b ∈ s.due t a) : s.time a ≤ s.time b ∧ s.time b ≤ t := by
  induction a using s.induction_due t with
  | later a ha => simp [due_of_lt ha] at h
  | due a ha ih =>
    rw [due_of_le ha] at h
    rcases List.mem_cons.mp h with rfl | h
    · exact ⟨le_rfl, ha⟩
    · obtain ⟨hfirst, hlast⟩ := ih h
      exact ⟨(s.time_lt a).le.trans hfirst, hlast⟩

/-- The turns that are due are the iterated ones up to the time. -/
theorem mem_due : b ∈ s.due t a ↔ (∃ n, s.next^[n] a = b) ∧ s.time b ≤ t := by
  induction a using s.induction_due t with
  | later a ha =>
    have hiter : ∀ n a, s.time a ≤ s.time (s.next^[n] a) := by
      intro n
      induction n with
      | zero => exact fun a => le_rfl
      | succ n ih => exact fun a => (s.time_lt a).le.trans (ih (s.next a))
    rw [due_of_lt ha]
    refine ⟨fun h => absurd h List.not_mem_nil, ?_⟩
    rintro ⟨⟨n, rfl⟩, hn⟩
    exact absurd (hiter n a) (by omega)
  | due a ha ih =>
    rw [due_of_le ha, List.mem_cons, ih]
    constructor
    · rintro (rfl | ⟨⟨n, rfl⟩, hn⟩)
      · exact ⟨⟨0, rfl⟩, ha⟩
      · exact ⟨⟨n + 1, rfl⟩, hn⟩
    · rintro ⟨⟨n, rfl⟩, hn⟩
      cases n with
      | zero => exact .inl rfl
      | succ n => exact .inr ⟨⟨n, rfl⟩, hn⟩

/-- What a property of turns is kept by the step is shared by all turns that are due. -/
theorem forall_mem_due {p : α → Prop} (hp : ∀ a, p a → p (s.next a)) (ha : p a) :
    ∀ b ∈ s.due t a, p b := by
  induction a using s.induction_due t with
  | later a h => simp [due_of_lt h]
  | due a h ih =>
    intro b hb
    rw [due_of_le h] at hb
    rcases List.mem_cons.mp hb with rfl | hb
    · exact ha
    · exact ih (hp a ha) b hb

theorem rest_induction {p : α → Prop} (hp : ∀ a, p a → p (s.next a)) (ha : p a) :
    p (s.rest t a) := by
  induction a using s.induction_due t with
  | later a h => rwa [rest_of_lt h]
  | due a h ih =>
    rw [rest_of_le h]
    exact ih (hp a ha)

end Schedule

end Pfv
