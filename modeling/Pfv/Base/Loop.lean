import Mathlib.Logic.Relation
import Mathlib.Tactic

/-!
# Loops

A loop does one step after another until a step says that it is left. With too little fuel it has no
result.

## Main definitions

* `loop`: the loop, with the number of steps it may look at.

## Main results

* `exists_loop`: a loop whose steps make something smaller is left, with enough fuel.
* `loop_invariant`: what every step keeps.
-/

namespace Pfv

variable {α : Type*} {step : α → Option α}

/-- The state in which a loop is left: the first one without a next. -/
def loop (step : α → Option α) : ℕ → α → Option α
  | 0, _ => none
  | n + 1, a =>
      match step a with
      | none => some a
      | some b => loop step n b

/-- A state reached by steps of the loop. -/
abbrev Loops (step : α → Option α) : α → α → Prop :=
  Relation.ReflTransGen fun a b => step a = some b

/-- A loop whose steps make something smaller is left, in one state whatever the fuel above its
size. -/
theorem exists_loop (step : α → Option α) (size : α → ℕ)
    (hstep : ∀ a b, step a = some b → size b < size a) (a : α) :
    ∃ b, step b = none ∧ Loops step a b ∧ ∀ n, size a < n → loop step n a = some b := by
  induction hsize : size a using Nat.strong_induction_on generalizing a with
  | h k ih =>
    cases hnext : step a with
    | none =>
      refine ⟨a, hnext, .refl, fun n hn => ?_⟩
      obtain ⟨m, rfl⟩ := Nat.exists_eq_succ_of_ne_zero (Nat.ne_zero_of_lt hn)
      rw [loop, hnext]
    | some a' =>
      have hlt := hstep a a' hnext
      obtain ⟨b, hleft, hrun, hloop⟩ := ih (size a') (hsize ▸ hlt) a' rfl
      refine ⟨b, hleft, .head hnext hrun, fun n hn => ?_⟩
      obtain ⟨m, rfl⟩ := Nat.exists_eq_succ_of_ne_zero (Nat.ne_zero_of_lt hn)
      rw [loop, hnext]
      exact hloop m (by omega)

/-- What every step of a loop keeps holds where it is left. -/
theorem Loops.invariant {P : α → Prop} {a b : α} (h : Loops step a b)
    (hstep : ∀ a b, P a → step a = some b → P b) (ha : P a) : P b := by
  induction h with
  | refl => exact ha
  | tail _ hnext ih => exact hstep _ _ ih hnext

end Pfv
