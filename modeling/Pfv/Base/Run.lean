import Mathlib.Logic.Relation
import Mathlib.Tactic

/-!
# Runs of a request-serving system

A system serves one request after another; a request that fails is rolled back and leaves the
state as it was. This file has the runs of such a system and the rules by which what one
successful request keeps is kept by a whole run.

## Main definitions

* `serve step s r`: the state after a request, unchanged when the request fails.
* `serveAll step s rs`: the state after a list of requests.
* `Admits ok step s rs`: every request of the list satisfies `ok` in the state it is served in.
* `runWeight step w s rs`: what the successful requests of the list weigh together.

## Main results

* `serveAll_invariant`: an invariant of every admitted successful request holds after every
  admitted run.
* `serveAll_rel`: a transitive relation that every admitted successful request keeps relates the
  two ends of every admitted run.
* `measure_serveAll`: a measure that every successful request moves by its weight moves by the
  weight of the run.
-/

namespace Pfv

universe u v w

variable {S : Type u} {R : Type v} {ε : Type w}

/-- The state after a request: a failed request is rolled back. -/
def serve (step : S → R → Except ε S) (s : S) (r : R) : S :=
  match step s r with
  | .ok s' => s'
  | .error _ => s

/-- The state after a list of requests. -/
def serveAll (step : S → R → Except ε S) (s : S) (rs : List R) : S :=
  rs.foldl (serve step) s

/-- Every request of a list satisfies `ok` in the state in which it is served. -/
def Admits (ok : S → R → Prop) (step : S → R → Except ε S) : S → List R → Prop
  | _, [] => True
  | s, r :: rs => ok s r ∧ Admits ok step (serve step s r) rs

/-- Whether a list of requests is admitted can be decided along its run. -/
def Admits.decide (ok : S → R → Prop) [∀ s r, Decidable (ok s r)] (step : S → R → Except ε S) :
    ∀ (s : S) (rs : List R), Decidable (Admits ok step s rs)
  | _, [] => .isTrue trivial
  | s, r :: rs => @instDecidableAnd _ _ _ (Admits.decide ok step (serve step s r) rs)

instance {ok : S → R → Prop} [∀ s r, Decidable (ok s r)] {step : S → R → Except ε S} (s : S)
    (rs : List R) : Decidable (Admits ok step s rs) :=
  Admits.decide ok step s rs

variable {step : S → R → Except ε S} {ok : S → R → Prop}

theorem serve_of_ok {s s' : S} {r : R} (h : step s r = .ok s') : serve step s r = s' := by
  simp [serve, h]

theorem serve_of_error {s : S} {r : R} {e : ε} (h : step s r = .error e) :
    serve step s r = s := by
  simp [serve, h]

/-- An accepted request leads to the state after it. -/
theorem step_eq_ok_serve {s : S} {r : R} (h : (step s r).toOption.isSome = true) :
    step s r = .ok (serve step s r) := by
  cases hstep : step s r with
  | error e =>
    rw [hstep] at h
    exact absurd h (by simp [Except.toOption])
  | ok s' => rw [serve_of_ok hstep]

/-- A request either succeeds or leaves the state as it was. -/
theorem serve_cases (step : S → R → Except ε S) (s : S) (r : R) :
    step s r = .ok (serve step s r) ∨ serve step s r = s := by
  cases h : step s r with
  | error e => exact .inr (serve_of_error h)
  | ok s' => exact .inl (by rw [serve_of_ok h])

@[simp] theorem serveAll_nil (s : S) : serveAll step s [] = s := rfl

@[simp] theorem serveAll_cons (s : S) (r : R) (rs : List R) :
    serveAll step s (r :: rs) = serveAll step (serve step s r) rs := rfl

theorem serveAll_append (s : S) (rs rs' : List R) :
    serveAll step s (rs ++ rs') = serveAll step (serveAll step s rs) rs' :=
  List.foldl_append

/-- A list of requests that all succeed is a run. -/
theorem serveAll_of_foldlM : ∀ {rs : List R} {s s' : S}, rs.foldlM step s = .ok s' →
    serveAll step s rs = s'
  | [], _, _, h => by
      cases h
      rfl
  | r :: rs, s, s', h => by
      rw [List.foldlM_cons] at h
      cases hone : step s r with
      | error e =>
        rw [hone] at h
        cases h
      | ok s₁ =>
        rw [hone] at h
        rw [serveAll_cons, serve_of_ok hone]
        exact serveAll_of_foldlM h

/-- What every admitted successful request keeps, one request keeps. -/
theorem serve_invariant {I : S → Prop} {s : S} {r : R} (hs : I s)
    (hstep : ∀ s', step s r = .ok s' → I s') : I (serve step s r) := by
  rcases serve_cases step s r with h | h
  · exact hstep _ h
  · rwa [h]

/-- An invariant of every admitted successful request holds after every admitted run. -/
theorem serveAll_invariant {I : S → Prop}
    (hstep : ∀ s r s', I s → ok s r → step s r = .ok s' → I s') :
    ∀ (rs : List R) {s : S}, I s → Admits ok step s rs → I (serveAll step s rs)
  | [], _, hs, _ => hs
  | r :: rs, _, hs, hrs =>
      serveAll_invariant hstep rs (serve_invariant hs fun s' => hstep _ r s' hs hrs.1) hrs.2

/-- A reflexive and transitive relation that every admitted successful request keeps, under an
invariant, relates the two ends of every admitted run. -/
theorem serveAll_rel {I : S → Prop} {P : S → S → Prop} (hrefl : ∀ s, P s s)
    (htrans : ∀ {s t u}, P s t → P t u → P s u)
    (hstep : ∀ s r s', I s → ok s r → step s r = .ok s' → I s' ∧ P s s') :
    ∀ (rs : List R) {s : S}, I s → Admits ok step s rs → P s (serveAll step s rs)
  | [], s, _, _ => hrefl s
  | r :: rs, s, hs, hrs => by
      have hmid : I (serve step s r) ∧ P s (serve step s r) := by
        rcases serve_cases step s r with h | h
        · exact hstep s r _ hs hrs.1 h
        · rw [h]
          exact ⟨hs, hrefl s⟩
      exact htrans hmid.2 (serveAll_rel hrefl htrans hstep rs hmid.1 hrs.2)

theorem admits_of_forall {p : R → Prop} (h : ∀ s r, p r → ok s r) :
    ∀ (rs : List R) (s : S), (∀ r ∈ rs, p r) → Admits ok step s rs
  | [], _, _ => trivial
  | r :: rs, s, hrs =>
      ⟨h s r (hrs r List.mem_cons_self),
        admits_of_forall h rs _ fun r' hr' => hrs r' (List.mem_cons_of_mem r hr')⟩

/-- Two conditions that agree under an invariant admit the same runs. -/
theorem admits_congr {ok' : S → R → Prop} {I : S → Prop}
    (hstep : ∀ s r s', I s → step s r = .ok s' → I s') (h : ∀ s r, I s → (ok s r ↔ ok' s r)) :
    ∀ (rs : List R) {s : S}, I s → (Admits ok step s rs ↔ Admits ok' step s rs)
  | [], _, _ => Iff.rfl
  | r :: rs, s, hs =>
      and_congr (h s r hs)
        (admits_congr hstep h rs (serve_invariant hs fun s' hs' => hstep s r s' hs hs'))

/-- Two conditions that agree under an invariant, which a request keeps when the first holds, admit
the same runs. -/
theorem admits_congr_of_kept {ok' : S → R → Prop} {I : S → Prop}
    (hstep : ∀ s r s', I s → ok s r → step s r = .ok s' → I s')
    (h : ∀ s r, I s → (ok s r ↔ ok' s r)) :
    ∀ (rs : List R) {s : S}, I s → (Admits ok step s rs ↔ Admits ok' step s rs)
  | [], _, _ => Iff.rfl
  | r :: rs, s, hs => by
      refine ⟨fun hrs => ⟨(h s r hs).mp hrs.1, ?_⟩, fun hrs => ⟨(h s r hs).mpr hrs.1, ?_⟩⟩
      · have hs' : I (serve step s r) := serve_invariant hs fun s' => hstep s r s' hs hrs.1
        exact (admits_congr_of_kept hstep h rs hs').mp hrs.2
      · have hok := (h s r hs).mpr hrs.1
        have hs' : I (serve step s r) := serve_invariant hs fun s' => hstep s r s' hs hok
        exact (admits_congr_of_kept hstep h rs hs').mpr hrs.2

/-- The requests of an admitted run stay admitted when its last part is cut off. -/
theorem Admits.of_append : ∀ {rs rs' : List R} {s : S},
    Admits ok step s (rs ++ rs') → Admits ok step s rs ∧ Admits ok step (serveAll step s rs) rs'
  | [], _, _, h => ⟨trivial, h⟩
  | _ :: _, _, _, h =>
      have h' := Admits.of_append h.2
      ⟨⟨h.1, h'.1⟩, h'.2⟩

/-! ### Sums over a run -/

section

variable {M : Type*} [AddCommMonoid M]

/-- What the successful requests of a list weigh, each in the state in which it is served. -/
def runWeight (step : S → R → Except ε S) (w : S → R → M) : S → List R → M
  | _, [] => 0
  | s, r :: rs =>
      (match step s r with
        | .ok _ => w s r
        | .error _ => 0) + runWeight step w (serve step s r) rs

/-- A measure that every successful request moves by its weight, under an invariant, moves by the
weight of the run. -/
theorem measure_serveAll {I : S → Prop} {μ : S → M} {w : S → R → M}
    (hstep : ∀ s r s', I s → step s r = .ok s' → I s' ∧ μ s' = μ s + w s r) :
    ∀ (rs : List R) {s : S}, I s → μ (serveAll step s rs) = μ s + runWeight step w s rs
  | [], _, _ => (add_zero _).symm
  | r :: rs, s, hs => by
      rw [serveAll_cons, runWeight]
      cases h : step s r with
      | error e =>
        rw [serve_of_error h, zero_add]
        exact measure_serveAll hstep rs hs
      | ok s' =>
        obtain ⟨hs', hμ⟩ := hstep s r s' hs h
        rw [serve_of_ok h, ← add_assoc, ← hμ]
        exact measure_serveAll hstep rs hs'

/-- The same of a list of requests that all succeed. -/
theorem measure_foldlM {I : S → Prop} {μ : S → M} {w : S → R → M}
    (hstep : ∀ s r s', I s → step s r = .ok s' → I s' ∧ μ s' = μ s + w s r) {rs : List R}
    {s s' : S} (hs : I s) (h : rs.foldlM step s = .ok s') :
    μ s' = μ s + runWeight step w s rs := by
  rw [← serveAll_of_foldlM h]
  exact measure_serveAll hstep rs hs

end

end Pfv
