import Mathlib.Tactic

/-!
# Guards and lookups in the error monad

A service function checks one condition after another and raises at the first that fails. In
`Except ε` a check is a computation that either raises or returns nothing, and a lookup raises
when the row is missing. This file gives the two combinators and the inversion lemmas that take
a successful run of a do block apart into the facts its checks established.

## Main definitions

* `raiseIf c e`: raise `e` when `c` holds.
* `orRaise o e`: the value of `o`, or raise `e`.
* `Throughout ok f s l`: every turn of a loop satisfies `ok` in the state it starts from.

## Main results

* `bind_eq_ok`: a sequence succeeds when both of its parts do.
* `raiseIf_bind_eq_ok`, `orRaise_bind_eq_ok`: what a passed check says.
* `bind_ne_error`: a sequence raises what one of its parts raises.
* `foldlM_invariant`: an invariant of the step of a loop is an invariant of the loop.
* `Throughout.foldlM_invariant`: the same for the turns that satisfy a condition.
-/

namespace Pfv

universe u

variable {ε : Type u} {α β : Type}

/-- Raise `e` when the condition holds. -/
def raiseIf (c : Prop) [Decidable c] (e : ε) : Except ε Unit :=
  if c then .error e else .ok ()

/-- The value of an optional row, or raise `e` when there is none. -/
def orRaise (o : Option α) (e : ε) : Except ε α :=
  match o with
  | some a => .ok a
  | none => .error e

@[simp] theorem raiseIf_eq_ok {c : Prop} [Decidable c] {e : ε} {x : Unit} :
    raiseIf c e = .ok x ↔ ¬c := by
  unfold raiseIf
  split_ifs with h <;> simp [h]

@[simp] theorem orRaise_eq_ok {o : Option α} {e : ε} {a : α} :
    orRaise o e = .ok a ↔ o = some a := by
  cases o <;> simp [orRaise]

theorem bind_eq_ok {x : Except ε α} {f : α → Except ε β} {b : β} :
    (x >>= f) = .ok b ↔ ∃ a, x = .ok a ∧ f a = .ok b := by
  cases x with
  | error e => simp [bind, Except.bind]
  | ok a => simp [bind, Except.bind]

theorem pure_eq_ok {a b : α} : (pure a : Except ε α) = .ok b ↔ a = b := by
  simp [pure, Except.pure]

theorem raiseIf_bind_eq_ok {c : Prop} [Decidable c] {e : ε} {f : Unit → Except ε β} {b : β} :
    (raiseIf c e >>= f) = .ok b ↔ ¬c ∧ f () = .ok b := by
  rw [bind_eq_ok]
  constructor
  · rintro ⟨⟨⟩, hc, h⟩
    exact ⟨raiseIf_eq_ok.mp hc, h⟩
  · rintro ⟨hc, h⟩
    exact ⟨(), raiseIf_eq_ok.mpr hc, h⟩

theorem orRaise_bind_eq_ok {o : Option α} {e : ε} {f : α → Except ε β} {b : β} :
    (orRaise o e >>= f) = .ok b ↔ ∃ a, o = some a ∧ f a = .ok b := by
  simp only [bind_eq_ok, orRaise_eq_ok]

theorem unit_bind_eq_ok {x : Except ε Unit} {f : Unit → Except ε β} {b : β} :
    (x >>= f) = .ok b ↔ x = .ok () ∧ f () = .ok b := by
  rw [bind_eq_ok]
  exact ⟨fun ⟨_, h⟩ => h, fun h => ⟨(), h⟩⟩

theorem map_eq_ok {x : Except ε α} {f : α → β} {b : β} :
    x.map f = .ok b ↔ ∃ a, x = .ok a ∧ f a = b := by
  cases x with
  | error e => simp [Except.map]
  | ok a => simp [Except.map]

/-- A sequence whose first part succeeds continues with its result. -/
theorem bind_of_ok {x : Except ε α} {f : α → Except ε β} {a : α} (h : x = .ok a) :
    (x >>= f) = f a := by
  subst h
  rfl

/-- Sequences that continue alike with what their first part returns are alike. -/
theorem bind_congr_of_ok {x : Except ε α} {f g : α → Except ε β}
    (h : ∀ a, x = .ok a → f a = g a) : (x >>= f) = x >>= g := by
  cases x with
  | error e => rfl
  | ok a => exact h a rfl

/-- A sequence whose first part raises raises the same error. -/
theorem bind_of_error {x : Except ε α} {f : α → Except ε β} {e : ε} (h : x = .error e) :
    (x >>= f) = .error e := by
  subst h
  rfl

theorem exists_of_isOk {x : Except ε α} (h : x.isOk = true) : ∃ a, x = .ok a := by
  cases x with
  | error e => cases h
  | ok a => exact ⟨a, rfl⟩

theorem raiseIf_of_not {c : Prop} [Decidable c] {e : ε} (h : ¬c) :
    raiseIf c e = (.ok () : Except ε Unit) := by
  simp [raiseIf, h]

theorem raiseIf_of {c : Prop} [Decidable c] {e : ε} (h : c) :
    raiseIf c e = (.error e : Except ε Unit) := by
  simp [raiseIf, h]

theorem raiseIf_ne_error {c : Prop} [Decidable c] {e e' : ε} (h : e ≠ e') :
    raiseIf c e ≠ .error e' := by
  unfold raiseIf
  split_ifs <;> simp [h]

theorem orRaise_ne_error {o : Option α} {e e' : ε} (h : e ≠ e') : orRaise o e ≠ .error e' := by
  cases o <;> simp [orRaise, h]

theorem raiseIf_eq_error {c : Prop} [Decidable c] {e e' : ε} :
    raiseIf c e = .error e' ↔ c ∧ e = e' := by
  unfold raiseIf
  split_ifs with hc <;> simp [hc]

theorem orRaise_eq_error {o : Option α} {e e' : ε} :
    orRaise o e = .error e' ↔ o = none ∧ e = e' := by
  cases o <;> simp [orRaise]

/-- A sequence raises when its first part raises, or its second part does with the result of the
first. -/
theorem bind_eq_error {x : Except ε α} {f : α → Except ε β} {e : ε} :
    (x >>= f) = .error e ↔ x = .error e ∨ ∃ a, x = .ok a ∧ f a = .error e := by
  cases x with
  | error e' => rw [bind_of_error rfl]; simp
  | ok a => rw [bind_of_ok rfl]; simp

/-- A sequence raises no error that neither of its parts raises. -/
theorem bind_ne_error {x : Except ε α} {f : α → Except ε β} {e : ε} (hx : x ≠ .error e)
    (hf : ∀ a, x = .ok a → f a ≠ .error e) : (x >>= f) ≠ .error e := by
  cases x with
  | error e' =>
    rw [bind_of_error rfl]
    exact fun h => hx (congrArg Except.error (Except.error.inj h))
  | ok a => exact hf a rfl

theorem forM_ne_error {ι : Type} {f : ι → Except ε Unit} {e : ε} (hf : ∀ i, f i ≠ .error e)
    (l : List ι) : forM l f ≠ .error e := by
  induction l with
  | nil => simp [pure, Except.pure]
  | cons i l ih =>
    rw [List.forM_cons]
    exact bind_ne_error (hf i) fun _ _ => ih

/-- A property that every successful step of a loop keeps holds after a successful loop. -/
theorem foldlM_invariant {σ : Type} {ι : Type*} {f : σ → ι → Except ε σ} (I : σ → Prop)
    (hf : ∀ s i s', I s → f s i = .ok s' → I s') :
    ∀ (l : List ι) (s s' : σ), I s → l.foldlM f s = .ok s' → I s'
  | [], s, s', hs, h => by
      rw [List.foldlM_nil, pure_eq_ok] at h
      exact h ▸ hs
  | i :: l, s, s', hs, h => by
      rw [List.foldlM_cons, bind_eq_ok] at h
      obtain ⟨m, hm, hrest⟩ := h
      exact foldlM_invariant I hf l m s' (hf s i m hs hm) hrest

/-- Every turn of a loop satisfies `ok` in the state it starts from. -/
def Throughout {σ : Type} {ι : Type*} (ok : σ → ι → Prop) (f : σ → ι → Except ε σ) :
    σ → List ι → Prop
  | _, [] => True
  | s, i :: l => ok s i ∧ ∀ s', f s i = .ok s' → Throughout ok f s' l

/-- Whether the turns of a loop satisfy a condition can be decided along the loop. -/
def Throughout.decide {σ : Type} {ι : Type*} (ok : σ → ι → Prop) [∀ s i, Decidable (ok s i)]
    (f : σ → ι → Except ε σ) : ∀ (s : σ) (l : List ι), Decidable (Throughout ok f s l)
  | _, [] => .isTrue trivial
  | s, i :: l =>
      match hf : f s i with
      | .ok s' =>
          have := Throughout.decide ok f s' l
          decidable_of_iff (ok s i ∧ Throughout ok f s' l)
            ⟨fun h => ⟨h.1, fun t ht => Except.ok.inj (hf.symm.trans ht) ▸ h.2⟩,
              fun h => ⟨h.1, h.2 s' hf⟩⟩
      | .error _ =>
          decidable_of_iff (ok s i)
            ⟨fun h => ⟨h, fun t ht => by rw [hf] at ht; exact absurd ht (by simp)⟩, fun h => h.1⟩

instance {σ : Type} {ι : Type*} {ok : σ → ι → Prop} [∀ s i, Decidable (ok s i)]
    {f : σ → ι → Except ε σ} (s : σ) (l : List ι) : Decidable (Throughout ok f s l) :=
  Throughout.decide ok f s l

theorem Throughout.of_forall {σ : Type} {ι : Type*} {ok : σ → ι → Prop} {f : σ → ι → Except ε σ} :
    ∀ {l : List ι} {s : σ}, (∀ i ∈ l, ∀ s, ok s i) → Throughout ok f s l
  | [], _, _ => trivial
  | _ :: _, s, h => by
      obtain ⟨hi, hl⟩ := List.forall_mem_cons.mp h
      exact ⟨hi s, fun _ _ => .of_forall hl⟩

/-- A property that every admitted successful step of a loop keeps holds after a successful loop
all of whose turns are admitted. -/
theorem Throughout.foldlM_invariant {σ : Type} {ι : Type*} {ok : σ → ι → Prop}
    {f : σ → ι → Except ε σ} (I : σ → Prop)
    (hf : ∀ s i s', I s → ok s i → f s i = .ok s' → I s') :
    ∀ {l : List ι} {s s' : σ}, Throughout ok f s l → I s → l.foldlM f s = .ok s' → I s'
  | [], s, s', _, hs, h => by
      rw [List.foldlM_nil, pure_eq_ok] at h
      exact h ▸ hs
  | i :: l, s, s', hok, hs, h => by
      rw [List.foldlM_cons, bind_eq_ok] at h
      obtain ⟨m, hm, hrest⟩ := h
      exact (hok.2 m hm).foldlM_invariant I hf (hf s i m hs hok.1 hm) hrest

end Pfv
