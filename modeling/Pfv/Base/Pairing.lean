import Mathlib.Tactic

/-!
# Pairings

A partial function on keys is a pairing when every key it sends somewhere is sent back: the
symmetric links of a store. This file has the changes that keep a pairing.

## Main definitions

* `Pairing link`: `link i = some j` implies `link j = some i`.

## Main results

* `Pairing.link_two`, `Pairing.unlink_two`: linking two free keys, unlinking two linked ones.
* `Pairing.restrict`: forgetting a set of keys, and the links to them.
-/

namespace Pfv

universe u

variable {ι : Type u}

/-- Every key that is linked is linked back. -/
def Pairing (link : ι → Option ι) : Prop :=
  ∀ i j, link i = some j → link j = some i

namespace Pairing

variable {link : ι → Option ι} (h : Pairing link)

include h

theorem eq_of_link_eq {i j k : ι} (hi : link i = some k) (hj : link j = some k) : i = j := by
  have hki := h i k hi
  rw [h j k hj, Option.some_inj] at hki
  exact hki.symm

/-- Forgetting a set of keys and the links to them keeps a pairing. -/
theorem restrict (s : ι → Prop) [DecidablePred s] :
    Pairing fun i => if s i then none else (link i).filter fun j => ¬s j := by
  intro i j hij
  simp only [Option.ite_none_left_eq_some, Option.filter_eq_some_iff, decide_eq_true_eq]
    at hij ⊢
  exact ⟨hij.2.2, h i j hij.2.1, hij.1⟩

variable [DecidableEq ι]

/-- Linking two free keys to each other keeps a pairing. -/
theorem link_two {a b : ι} (ha : link a = none) (hb : link b = none) (hab : a ≠ b) :
    Pairing (Function.update (Function.update link a (some b)) b (some a)) := by
  intro i j hij
  by_cases hib : i = b
  · subst hib
    rw [Function.update_self, Option.some_inj] at hij
    rw [← hij, Function.update_of_ne hab, Function.update_self]
  rw [Function.update_of_ne hib] at hij
  by_cases hia : i = a
  · subst hia
    rw [Function.update_self, Option.some_inj] at hij
    rw [← hij, Function.update_self]
  rw [Function.update_of_ne hia] at hij
  -- Neither of the two free keys is the target of an old link.
  have hji := h i j hij
  have hjb : j ≠ b := by
    rintro rfl
    rw [hb] at hji
    exact absurd hji (by simp)
  have hja : j ≠ a := by
    rintro rfl
    rw [ha] at hji
    exact absurd hji (by simp)
  rw [Function.update_of_ne hjb, Function.update_of_ne hja, hji]

/-- Unlinking a key and the key it is linked to keeps a pairing. -/
theorem unlink_two {a b : ι} (hab : link a = some b) :
    Pairing (Function.update (Function.update link a none) b none) := by
  intro i j hij
  by_cases hib : i = b
  · rw [hib, Function.update_self] at hij
    exact absurd hij (by simp)
  rw [Function.update_of_ne hib] at hij
  by_cases hia : i = a
  · rw [hia, Function.update_self] at hij
    exact absurd hij (by simp)
  rw [Function.update_of_ne hia] at hij
  have hjb : j ≠ b := by
    rintro rfl
    exact hia (h.eq_of_link_eq hij hab)
  have hja : j ≠ a := by
    rintro rfl
    exact hib (h.eq_of_link_eq hij (h j b hab))
  rw [Function.update_of_ne hjb, Function.update_of_ne hja, h i j hij]

end Pairing

end Pfv
