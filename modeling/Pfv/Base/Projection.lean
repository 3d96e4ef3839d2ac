import Pfv.Base.Guard
import Pfv.Base.Run

/-!
# Computations seen through a projection

A computation on a state may depend on a part of the state only. Then the computation on that part
gives the part of the result and fails with the same errors. This file has the rules by which this
is shown for a computation from the steps it is made of.

## Main definitions

* `Seen φ x y`: `y` gives the image under `φ` of what `x` gives, and fails as `x` does.

## Main results

* `Seen.bind`, `Seen.check`, `Seen.foldlM`: the rules for sequences, checks and loops.
* `Seen.serve_eq`: a request seen through a projection.
-/

namespace Pfv

universe u

variable {ε : Type u} {α β γ δ : Type}

/-- `y` gives the image under `φ` of what `x` gives, and fails as `x` does. -/
def Seen (φ : α → β) (x : Except ε α) (y : Except ε β) : Prop :=
  φ <$> x = y

namespace Seen

variable {φ : α → β} {ψ : γ → δ} {x : Except ε α} {y : Except ε β}

theorem pure (φ : α → β) (a : α) : Seen φ (pure a : Except ε α) (pure (φ a)) := rfl

theorem pure_of_eq {φ : α → β} {a : α} {b : β} (h : φ a = b) :
    Seen φ (Pure.pure a : Except ε α) (Pure.pure b) :=
  congrArg Except.ok h

theorem error (φ : α → β) (e : ε) : Seen φ (.error e) (.error e) := rfl

theorem of_eq {x y : Except ε α} (h : x = y) : Seen id x y := by
  rw [h]
  exact id_map y

theorem ok (h : Seen φ x y) {a : α} (hx : x = .ok a) : y = .ok (φ a) := by
  rw [← h, hx]
  rfl

theorem bind {f : α → Except ε γ} {g : β → Except ε δ} (h : Seen φ x y)
    (hfg : ∀ a, x = .ok a → Seen ψ (f a) (g (φ a))) : Seen ψ (x >>= f) (y >>= g) := by
  cases x with
  | error e =>
    rw [← h]
    rfl
  | ok a =>
    rw [← h]
    exact hfg a rfl

/-- A check that both computations make. -/
theorem check {c : Except ε Unit} {f : Unit → Except ε α} {g : Unit → Except ε β}
    (h : c = .ok () → Seen φ (f ()) (g ())) : Seen φ (c >>= f) (c >>= g) := by
  cases c with
  | error e => rfl
  | ok a => exact h rfl

/-- A value that both computations read. -/
theorem read {x : Except ε γ} {f : γ → Except ε α} {g : γ → Except ε β}
    (h : ∀ c, x = .ok c → Seen φ (f c) (g c)) : Seen φ (x >>= f) (x >>= g) := by
  cases x with
  | error e => rfl
  | ok c => exact h c rfl

theorem ite {c : Prop} [Decidable c] {x' : Except ε α} {y' : Except ε β}
    (h : c → Seen φ x y) (h' : ¬c → Seen φ x' y') :
    Seen φ (if c then x else x') (if c then y else y') := by
  split_ifs with hc
  · exact h hc
  · exact h' hc

theorem mapError {ε' : Type u} (f : ε → ε') (h : Seen φ x y) :
    Seen φ (x.mapError f) (y.mapError f) := by
  rw [← h]
  cases x <;> rfl

/-- The state a computation leaves, without what it returns. -/
theorem fst {x : Except ε (α × γ)} {y : Except ε (β × γ)} (h : Seen (Prod.map φ id) x y) :
    Seen φ (Prod.fst <$> x) (Prod.fst <$> y) := by
  rw [← h]
  cases x <;> rfl

/-- A request seen through a projection, failed requests rolled back. -/
theorem serve_eq {ρ : Type} {step : α → ρ → Except ε α} {step' : β → ρ → Except ε β} {a : α}
    {r : ρ} (h : Seen φ (step a r) (step' (φ a) r)) :
    φ (serve step a r) = serve step' (φ a) r := by
  unfold serve
  rw [← h]
  cases step a r <;> rfl

/-- A loop whose body is seen, in every state that satisfies an invariant. -/
theorem foldlM {ι : Type} {f : α → ι → Except ε α} {g : β → ι → Except ε β} {I : α → Prop}
    {l : List ι} (hstep : ∀ a, ∀ i ∈ l, I a → Seen φ (f a i) (g (φ a) i) ∧
      ∀ a', f a i = .ok a' → I a') :
    ∀ a, I a → Seen φ (l.foldlM f a) (l.foldlM g (φ a)) := by
  induction l with
  | nil => exact fun a _ => .pure φ a
  | cons i l ih =>
    intro a ha
    rw [List.foldlM_cons, List.foldlM_cons]
    obtain ⟨hseen, hkeeps⟩ := hstep a i List.mem_cons_self ha
    exact hseen.bind fun a' ha' =>
      ih (fun b j hj => hstep b j (List.mem_cons_of_mem i hj)) a' (hkeeps a' ha')

end Seen

end Pfv
