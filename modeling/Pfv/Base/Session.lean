import Pfv.Base.Run

/-!
# Sessions that interleave

Several sessions work on one shared state in steps of their own, in any order. A session advances
one step at a time and either goes on or ends. This file has the runs of such a system and the rules
by which what every step keeps is kept by every interleaving; and, as a special case, the sessions
that first read and check and later write and commit, without and with locks on what they read.

## Main definitions

* `Sessions`: how a session starts and advances; `Running`: a shared state with the live sessions.
* `Sessions.interleave`: the state after a list of turns.
* `Sessions.weight`: the sum of what the steps of a list of turns weigh.
* `TwoStep`: requests that are checked in one step and committed in another.
* `TwoStep.committed`: the plans that are committed, in order.
* `Locking`: such requests that hold locks in between; `Locked`: the state with the locks.

## Main results

* `Sessions.interleave_invariant`: an invariant of the shared state and the live sessions.
* `Sessions.interleave_local`: the same for invariants that speak of one session at a time.
* `Sessions.interleave_pairwise`: the same for invariants that speak of two sessions at a time.
* `Sessions.shared_invariant`: the same for invariants of the shared state.
* `Sessions.measure_interleave`: a measure that every step moves by its weight moves by the sum of
  them.
* `TwoStep.interleave_invariant`: what every commit keeps holds after every interleaving.
* `TwoStep.respects_congr`: two conditions on commits that the same interleavings respect.
* `TwoStep.interleave_local`: the same with what each check establishes for its own commit.
* `TwoStep.interleave_eq_serveAll`: when an interleaving is a run of the requests it commits.
* `Locking.interleave_invariant`: the same with locks.
* `Locking.measure_interleave`: a measure moves by what the commits weigh.
* `Locking.interleave_protected`: the same with what each check establishes and its locks protect.
-/

namespace Pfv

variable {S R P : Type}

/-- How a session for a request starts, and what one step of it does to the shared state: it goes on
with the rest of the session or ends. -/
structure Sessions (S R P : Type) where
  start : R → P
  advance : S → P → S × Option P

/-- A shared state with the sessions that have started and not ended. -/
structure Running (S P : Type) where
  shared : S
  live : List P

/-- A turn: a request starts a session, or a live session advances. -/
inductive Turn (R : Type)
  | start (r : R)
  | advance (k : ℕ)

namespace Sessions

/-- The state after a turn. -/
def turn (sys : Sessions S R P) (s : Running S P) : Turn R → Running S P
  | .start r => { s with live := s.live ++ [sys.start r] }
  | .advance k =>
      match s.live[k]? with
      | none => s
      | some p =>
          { shared := (sys.advance s.shared p).1
            live := s.live.eraseIdx k ++ (sys.advance s.shared p).2.toList }

/-- A turn as a request to the system: it never fails. -/
def step (sys : Sessions S R P) (s : Running S P) (t : Turn R) : Except Empty (Running S P) :=
  .ok (sys.turn s t)

/-- The state after a list of turns. -/
def interleave (sys : Sessions S R P) (s : Running S P) (ts : List (Turn R)) : Running S P :=
  serveAll sys.step s ts

/-- The step of a turn, if any, satisfies `ok` in the shared state in which it is taken. -/
def TurnOk (ok : S → P → Prop) (s : Running S P) : Turn R → Prop
  | .start _ => True
  | .advance k => ∀ p ∈ s.live[k]?, ok s.shared p

/-- Every step that a live session takes satisfies `ok` in the shared state in which it is taken. -/
def Respects (sys : Sessions S R P) (ok : S → P → Prop) (s : Running S P) (ts : List (Turn R)) :
    Prop :=
  Admits (TurnOk ok) sys.step s ts

instance {ok : S → P → Prop} [∀ s p, Decidable (ok s p)] (s : Running S P) :
    ∀ t : Turn R, Decidable (TurnOk ok s t)
  | .start _ => .isTrue trivial
  | .advance k => inferInstanceAs (Decidable (∀ p ∈ s.live[k]?, ok s.shared p))

instance {sys : Sessions S R P} {ok : S → P → Prop} [∀ s p, Decidable (ok s p)]
    (s : Running S P) (ts : List (Turn R)) : Decidable (sys.Respects ok s ts) :=
  inferInstanceAs (Decidable (Admits (TurnOk ok) sys.step s ts))

variable {sys : Sessions S R P} {ok : S → P → Prop}

@[simp] theorem interleave_nil (s : Running S P) : sys.interleave s [] = s := rfl

@[simp] theorem interleave_cons (s : Running S P) (t : Turn R) (ts : List (Turn R)) :
    sys.interleave s (t :: ts) = sys.interleave (sys.turn s t) ts := rfl

theorem interleave_append (s : Running S P) (ts ts' : List (Turn R)) :
    sys.interleave s (ts ++ ts') = sys.interleave (sys.interleave s ts) ts' :=
  serveAll_append s ts ts'

/-- A condition that always holds is respected. -/
theorem respects_of_forall (h : ∀ s p, ok s p) (s : Running S P) (ts : List (Turn R)) :
    sys.Respects ok s ts := by
  refine admits_of_forall (p := fun _ => True) (fun s t _ => ?_) ts s fun _ _ => trivial
  cases t with
  | start r => trivial
  | advance k => exact fun p _ => h s.shared p

/-- An invariant of the shared state and the live sessions, kept by the start of every session and
by every step that satisfies the condition, holds after every interleaving. -/
theorem interleave_invariant {I : S → List P → Prop}
    (hstart : ∀ s l r, I s l → I s (l ++ [sys.start r]))
    (hadvance : ∀ s l k p, I s l → l[k]? = some p → ok s p →
      I (sys.advance s p).1 (l.eraseIdx k ++ (sys.advance s p).2.toList))
    {s : Running S P} (ts : List (Turn R)) (hs : I s.shared s.live) (hts : sys.Respects ok s ts) :
    I (sys.interleave s ts).shared (sys.interleave s ts).live := by
  refine serveAll_invariant (I := fun s : Running S P => I s.shared s.live)
    (fun s t s' hs ht hstep => ?_) ts hs hts
  obtain rfl := Except.ok.inj hstep
  cases t with
  | start r => exact hstart _ _ r hs
  | advance k =>
    cases hk : s.live[k]? with
    | none => simpa only [turn, hk] using hs
    | some p => simpa only [turn, hk] using hadvance _ _ k p hs hk (ht p hk)

/-- An invariant of the shared state together with a property of each live session in it. -/
theorem interleave_local {I : S → Prop} {J : S → P → Prop}
    (hstart : ∀ s r, I s → J s (sys.start r))
    (hadvance : ∀ s p, I s → J s p → ok s p →
      I (sys.advance s p).1 ∧ (∀ p' ∈ (sys.advance s p).2, J (sys.advance s p).1 p') ∧
        ∀ q, J s q → J (sys.advance s p).1 q)
    {s : Running S P} (ts : List (Turn R)) (hs : I s.shared) (hlive : ∀ p ∈ s.live, J s.shared p)
    (hts : sys.Respects ok s ts) :
    I (sys.interleave s ts).shared ∧
      ∀ p ∈ (sys.interleave s ts).live, J (sys.interleave s ts).shared p := by
  refine interleave_invariant (I := fun s l => I s ∧ ∀ p ∈ l, J s p) (fun s l r hs => ?_)
    (fun s l k p hs hp hok => ?_) ts ⟨hs, hlive⟩ hts
  · refine ⟨hs.1, fun p hp => ?_⟩
    rcases List.mem_append.mp hp with hp | hp
    · exact hs.2 p hp
    · exact List.mem_singleton.mp hp ▸ hstart s r hs.1
  · obtain ⟨hI, hJ, hstable⟩ := hadvance s p hs.1 (hs.2 p (List.mem_of_getElem? hp)) hok
    refine ⟨hI, fun q hq => ?_⟩
    rcases List.mem_append.mp hq with hq | hq
    · exact hstable q (hs.2 q (List.mem_of_mem_eraseIdx hq))
    · exact hJ q (Option.mem_toList.mp hq)

/-- An invariant of the shared state together with a property of each live session in it and a
relation between every two of them. -/
theorem interleave_pairwise {I : S → Prop} {J : S → P → Prop} {K : P → P → Prop}
    (hsymm : ∀ {p q}, K p q → K q p) (hstart : ∀ s r, I s → J s (sys.start r))
    (hstartK : ∀ r q, K q (sys.start r))
    (hadvance : ∀ s p, I s → J s p → ok s p →
      I (sys.advance s p).1 ∧ (∀ p' ∈ (sys.advance s p).2, J (sys.advance s p).1 p') ∧
        ∀ q, J s q → K q p →
          J (sys.advance s p).1 q ∧ ∀ p' ∈ (sys.advance s p).2, K q p')
    {s : Running S P} (ts : List (Turn R)) (hs : I s.shared) (hlive : ∀ p ∈ s.live, J s.shared p)
    (hpair : s.live.Pairwise K) (hts : sys.Respects ok s ts) :
    I (sys.interleave s ts).shared ∧
      (∀ p ∈ (sys.interleave s ts).live, J (sys.interleave s ts).shared p) ∧
        (sys.interleave s ts).live.Pairwise K := by
  refine interleave_invariant (I := fun s l => I s ∧ (∀ p ∈ l, J s p) ∧ l.Pairwise K)
    (fun s l r hs => ?_) (fun s l k p hs hp hok => ?_) ts ⟨hs, hlive, hpair⟩ hts
  · refine ⟨hs.1, fun p hp => ?_, ?_⟩
    · rcases List.mem_append.mp hp with hp | hp
      · exact hs.2.1 p hp
      · exact List.mem_singleton.mp hp ▸ hstart s r hs.1
    · exact List.pairwise_append.mpr ⟨hs.2.2, List.pairwise_singleton K _,
        fun q _ p hp => List.mem_singleton.mp hp ▸ hstartK r q⟩
  · obtain ⟨hI, hJ, hother⟩ := hadvance s p hs.1 (hs.2.1 p (List.mem_of_getElem? hp)) hok
    have hK : ∀ q ∈ l.eraseIdx k, K q p := by
      have hperm : l.Perm (p :: l.eraseIdx k) := by
        obtain ⟨hk, rfl⟩ := List.getElem?_eq_some_iff.mp hp
        exact (List.getElem_cons_eraseIdx_perm hk).symm
      intro q hq
      exact hsymm ((List.pairwise_cons.mp ((hperm.pairwise_iff hsymm).mp hs.2.2)).1 q hq)
    have hq : ∀ q ∈ l.eraseIdx k, J (sys.advance s p).1 q ∧ ∀ p' ∈ (sys.advance s p).2, K q p' :=
      fun q hq => hother q (hs.2.1 q (List.mem_of_mem_eraseIdx hq)) (hK q hq)
    refine ⟨hI, fun q hmem => ?_, ?_⟩
    · rcases List.mem_append.mp hmem with hmem | hmem
      · exact (hq q hmem).1
      · exact hJ q (Option.mem_toList.mp hmem)
    · refine List.pairwise_append.mpr ⟨hs.2.2.sublist (List.eraseIdx_sublist l k), ?_, ?_⟩
      · cases (sys.advance s p).2 <;> simp
      · exact fun q hmem p' hp' => (hq q hmem).2 p' (Option.mem_toList.mp hp')

/-- Of sessions that are pairwise related, at most one is of a kind of which no two are. -/
theorem length_filter_le_one {K : P → P → Prop} {p : P → Prop} [DecidablePred p] {l : List P}
    (hl : l.Pairwise K) (h : ∀ a ∈ l, ∀ b ∈ l, p a → p b → ¬K a b) : (l.filter p).length ≤ 1 := by
  have hmem (a : P) (ha : a ∈ l.filter p) : a ∈ l ∧ p a := by simpa using ha
  have hK : (l.filter p).Pairwise K := hl.filter _
  generalize l.filter p = kind at hmem hK
  match kind with
  | [] => simp
  | [a] => simp
  | a :: b :: rest =>
    have ha := hmem a (by simp)
    have hb := hmem b (by simp)
    exact absurd ((List.pairwise_cons.mp hK).1 b (by simp)) (h a ha.1 b hb.1 ha.2 hb.2)

/-- An invariant of the shared state alone. -/
theorem shared_invariant {I : S → Prop}
    (hadvance : ∀ s p, I s → ok s p → I (sys.advance s p).1)
    {s : Running S P} (ts : List (Turn R)) (hs : I s.shared) (hts : sys.Respects ok s ts) :
    I (sys.interleave s ts).shared :=
  (interleave_local (J := fun _ _ => True) (fun _ _ _ => trivial)
    (fun s p hs _ hok => ⟨hadvance s p hs hok, fun _ _ => trivial, fun _ _ => trivial⟩) ts hs
    (fun _ _ => trivial) hts).1

/-! #### Sums over the steps -/

variable {M : Type} [AddCommMonoid M]

/-- What the step of a turn, if any, weighs in the shared state in which it is taken. -/
def turnWeight (f : S → P → M) (s : Running S P) : Turn R → M
  | .start _ => 0
  | .advance k => s.live[k]?.elim 0 (f s.shared)

/-- The sum of what the steps of a list of turns weigh. -/
def weight (sys : Sessions S R P) (f : S → P → M) : Running S P → List (Turn R) → M
  | _, [] => 0
  | s, t :: ts => turnWeight f s t + weight sys f (sys.turn s t) ts

/-- A measure of the shared state that every step moves by its weight moves by the sum of the
weights over every interleaving. -/
theorem measure_interleave {f : S → P → M} {μ : S → M} {I : Running S P → Prop}
    (hstep : ∀ s p, I s → p ∈ s.live → μ (sys.advance s.shared p).1 = μ s.shared + f s.shared p)
    {s : Running S P} (ts : List (Turn R)) (hrun : ∀ ts, I (sys.interleave s ts)) :
    μ (sys.interleave s ts).shared = μ s.shared + sys.weight f s ts := by
  induction ts generalizing s with
  | nil => exact (add_zero _).symm
  | cons t ts ih =>
    have hturn : μ (sys.turn s t).shared = μ s.shared + turnWeight f s t := by
      cases t with
      | start r => exact (add_zero _).symm
      | advance k =>
        cases hk : s.live[k]? with
        | none => simp [turn, turnWeight, hk]
        | some p => simpa [turn, turnWeight, hk] using hstep s p (hrun []) (List.mem_of_getElem? hk)
    have hrest : μ (sys.interleave (sys.turn s t) ts).shared =
        μ (sys.turn s t).shared + sys.weight f (sys.turn s t) ts := ih fun ts => hrun (t :: ts)
    rw [interleave_cons, hrest, hturn, weight, add_assoc]

end Sessions

/-! ### A check and a commit -/

/-- Requests that are read and checked in one step, which ends with a plan of what to write, and
written and committed in another. A failed commit is rolled back. -/
structure TwoStep (S R P ε : Type) where
  check : S → R → Except ε (S × P)
  commit : S → P → Except ε S

/-- Where a session of a two-step request is. -/
inductive Phase (R P : Type)
  | checking (r : R)
  | committing (p : P)

namespace TwoStep

variable {ε : Type}

/-- The sessions of two-step requests. -/
def sessions (sys : TwoStep S R P ε) : Sessions S R (Phase R P) where
  start := .checking
  advance s
    | .checking r =>
        match sys.check s r with
        | .ok (s', p) => (s', some (.committing p))
        | .error _ => (s, none)
    | .committing p =>
        match sys.commit s p with
        | .ok s' => (s', none)
        | .error _ => (s, none)

/-- A condition on commits. -/
def OnCommit (ok : S → P → Prop) (s : S) : Phase R P → Prop
  | .checking _ => True
  | .committing p => ok s p

instance {ok : S → P → Prop} [∀ s p, Decidable (ok s p)] (s : S) :
    ∀ p : Phase R P, Decidable (OnCommit ok s p)
  | .checking _ => .isTrue trivial
  | .committing p => inferInstanceAs (Decidable (ok s p))

/-- What every check keeps and every commit that satisfies the condition keeps, every interleaving
keeps. -/
theorem interleave_invariant {sys : TwoStep S R P ε} {ok : S → P → Prop} {I : S → Prop}
    (hcheck : ∀ s r s' p, I s → sys.check s r = .ok (s', p) → I s')
    (hcommit : ∀ s p s', I s → ok s p → sys.commit s p = .ok s' → I s')
    {s : Running S (Phase R P)} (ts : List (Turn R)) (hs : I s.shared)
    (hts : sys.sessions.Respects (OnCommit ok) s ts) :
    I (sys.sessions.interleave s ts).shared := by
  refine Sessions.shared_invariant (fun s p hs hok => ?_) ts hs hts
  cases p with
  | checking r =>
    simp only [sessions]
    split
    · next s' p hcheck' => exact hcheck s r s' p hs hcheck'
    · exact hs
  | committing p =>
    simp only [sessions]
    split
    · next s' hcommit' => exact hcommit s p s' hs hok hcommit'
    · exact hs

/-- Two conditions on commits that agree under an invariant, which the checks and the commits that
satisfy the first keep, are respected by the same interleavings. -/
theorem respects_congr {sys : TwoStep S R P ε} {ok ok' : S → P → Prop} {I : S → Prop}
    (hcheck : ∀ s r s' p, I s → sys.check s r = .ok (s', p) → I s')
    (hcommit : ∀ s p s', I s → ok s p → sys.commit s p = .ok s' → I s')
    (h : ∀ s p, I s → (ok s p ↔ ok' s p)) {s : Running S (Phase R P)} (ts : List (Turn R))
    (hs : I s.shared) :
    sys.sessions.Respects (OnCommit ok) s ts ↔ sys.sessions.Respects (OnCommit ok') s ts := by
  refine admits_congr_of_kept (I := fun s : Running S (Phase R P) => I s.shared)
    (fun s t s' hs hok hstep => ?_) (fun s t hs => ?_) ts hs
  · obtain rfl := Except.ok.inj hstep
    exact interleave_invariant hcheck hcommit [t] hs ⟨hok, trivial⟩
  · cases t with
    | start r => exact Iff.rfl
    | advance k =>
      refine forall₂_congr fun p _ => ?_
      cases p with
      | checking r => exact Iff.rfl
      | committing q => exact h s.shared q hs

/-- What the checks and commits keep of the shared state together with a property of each plan that
a check establishes and that lasts until the plan is committed. -/
theorem interleave_local {sys : TwoStep S R P ε} {ok : S → P → Prop} {I : S → Prop}
    {J : S → P → Prop}
    (hcheck : ∀ s r s' p, I s → sys.check s r = .ok (s', p) →
      I s' ∧ J s' p ∧ ∀ q, J s q → J s' q)
    (hcommit : ∀ s p s', I s → J s p → ok s p → sys.commit s p = .ok s' →
      I s' ∧ ∀ q, J s q → J s' q)
    {s : Running S (Phase R P)} (ts : List (Turn R)) (hs : I s.shared)
    (hlive : ∀ q ∈ s.live, OnCommit J s.shared q)
    (hts : sys.sessions.Respects (OnCommit ok) s ts) :
    I (sys.sessions.interleave s ts).shared := by
  have hothers {s s' : S} (h : ∀ q, J s q → J s' q) (q : Phase R P) (hq : OnCommit J s q) :
      OnCommit J s' q := by
    cases q with
    | checking r => trivial
    | committing q => exact h q hq
  refine (Sessions.interleave_local (J := OnCommit J) (fun _ _ _ => by exact trivial)
    (fun s q hs hq hok => ?_) ts hs hlive hts).1
  cases q with
  | checking r =>
    cases hr : sys.check s r with
    | error e => simpa [sessions, hr] using hs
    | ok x =>
      obtain ⟨hI, hJ, hkeep⟩ := hcheck s r x.1 x.2 hs hr
      simp only [sessions, hr, Option.mem_some_iff, forall_eq']
      exact ⟨hI, hJ, hothers hkeep⟩
  | committing q =>
    cases hw : sys.commit s q with
    | error e => simpa [sessions, hw] using hs
    | ok s' =>
      obtain ⟨hI, hkeep⟩ := hcommit s q s' hs hq hok hw
      simp only [sessions, hw, Option.not_mem_none, false_implies, implies_true, true_and]
      exact ⟨hI, hothers hkeep⟩

/-! #### Serial runs -/

/-- The plan that a turn commits, if any. -/
def turnCommit (sys : TwoStep S R P ε) (s : Running S (Phase R P)) : Turn R → List P
  | .start _ => []
  | .advance k =>
      match s.live[k]? with
      | some (.committing p) => if (sys.commit s.shared p).toOption.isSome then [p] else []
      | _ => []

/-- The plans that an interleaving commits, in the order of the commits. -/
def committed (sys : TwoStep S R P ε) : Running S (Phase R P) → List (Turn R) → List P
  | _, [] => []
  | s, t :: ts => sys.turnCommit s t ++ committed sys (sys.sessions.turn s t) ts

/-- A turn commits no plan and leaves the state alone, when the checks change nothing, or it is the
commit of one plan. -/
theorem turn_cases {sys : TwoStep S R P ε}
    (hcheck : ∀ s r s' p, sys.check s r = .ok (s', p) → s' = s) (s : Running S (Phase R P))
    (t : Turn R) :
    (sys.sessions.turn s t).shared = s.shared ∧ sys.turnCommit s t = [] ∨
      ∃ k p, t = .advance k ∧ s.live[k]? = some (.committing p) ∧ sys.turnCommit s t = [p] ∧
        sys.commit s.shared p = .ok (sys.sessions.turn s t).shared := by
  cases t with
  | start r => exact .inl ⟨rfl, rfl⟩
  | advance k =>
    cases hk : s.live[k]? with
    | none => exact .inl ⟨by simp [Sessions.turn, hk], by simp [turnCommit, hk]⟩
    | some q =>
      cases q with
      | checking r =>
        refine .inl ⟨?_, by simp [turnCommit, hk]⟩
        simp only [Sessions.turn, hk, sessions]
        split
        · next s' p h => exact hcheck s.shared r s' p h
        · rfl
      | committing p =>
        cases hp : sys.commit s.shared p with
        | error e =>
          exact .inl ⟨by simp [Sessions.turn, hk, sessions, hp],
            by simp [turnCommit, hk, hp, Except.toOption]⟩
        | ok s' =>
          exact .inr ⟨k, p, rfl, hk, by simp [turnCommit, hk, hp, Except.toOption],
            by simp [Sessions.turn, hk, sessions, hp]⟩

/-- When the checks change nothing and every commit that satisfies the condition does what a request
would do at once, an interleaving leads to the state of a run of these requests, in the order of the
commits. -/
theorem interleave_eq_serveAll {sys : TwoStep S R P ε} {Q : Type} {step : S → Q → Except ε S}
    {f : P → Q} {ok : S → P → Prop} {I : S → Prop}
    (hcheck : ∀ s r s' p, sys.check s r = .ok (s', p) → s' = s)
    (hcommit : ∀ s p s', I s → ok s p → sys.commit s p = .ok s' → I s' ∧ step s (f p) = .ok s') :
    ∀ (ts : List (Turn R)) {s : Running S (Phase R P)}, I s.shared →
      sys.sessions.Respects (OnCommit ok) s ts →
        (sys.sessions.interleave s ts).shared =
          serveAll step s.shared ((sys.committed s ts).map f)
  | [], _, _, _ => rfl
  | t :: ts, s, hs, hts => by
      rw [Sessions.interleave_cons, committed]
      rcases turn_cases hcheck s t with ⟨hsame, hnone⟩ | ⟨k, p, rfl, hk, hone, hp⟩
      · have hrest : (sys.sessions.interleave (sys.sessions.turn s t) ts).shared = _ :=
          interleave_eq_serveAll hcheck hcommit ts (hsame.symm ▸ hs) hts.2
        rw [hnone, hrest, hsame, List.nil_append]
      · obtain ⟨hs', hstep⟩ := hcommit s.shared p _ hs (hts.1 _ hk) hp
        have hrest : (sys.sessions.interleave (sys.sessions.turn s (.advance k)) ts).shared = _ :=
          interleave_eq_serveAll hcheck hcommit ts hs' hts.2
        rw [hone, hrest, List.singleton_append, List.map_cons, serveAll_cons, serve_of_ok hstep]

end TwoStep

/-! ### Locks between the check and the commit -/

/-- The locks of two-step requests: a check takes its locks before it reads and keeps them up to the
commit, and a commit needs the locks of what it writes while it writes. -/
structure Locking (S R P L ε : Type) extends TwoStep S R P ε where
  reads : R → List L
  writes : S → P → List L

/-- A shared state with the locks that are held from a check to its commit. -/
structure Locked (S L : Type) where
  state : S
  held : List L

namespace Locking

variable {L ε : Type} [DecidableEq L]

/-- Some lock that is needed is held by another session. -/
def Blocked (s : Locked S L) (own needed : List L) : Prop :=
  ∃ l ∈ needed, l ∈ s.held ∧ l ∉ own

instance (s : Locked S L) (own needed : List L) : Decidable (Blocked s own needed) :=
  inferInstanceAs (Decidable (∃ l ∈ needed, l ∈ s.held ∧ l ∉ own))

/-- The sessions of two-step requests with locks. A step that is blocked waits. -/
def sessions (sys : Locking S R P L ε) : Sessions (Locked S L) R (Phase R (List L × P)) where
  start := .checking
  advance s
    | .checking r =>
        if Blocked s [] (sys.reads r) then (s, some (.checking r))
        else
          match sys.check s.state r with
          | .ok (s', p) =>
              ({ state := s', held := sys.reads r ++ s.held }, some (.committing (sys.reads r, p)))
          | .error _ => (s, none)
    | .committing (own, p) =>
        if Blocked s own (sys.writes s.state p) then (s, some (.committing (own, p)))
        else
          ({ state := serve sys.commit s.state p, held := s.held.filter (· ∉ own) }, none)

/-- A condition on the commits that are not blocked. -/
def OnCommit (sys : Locking S R P L ε) (ok : S → P → Prop) (s : Locked S L) :
    Phase R (List L × P) → Prop
  | .checking _ => True
  | .committing (own, p) => ¬Blocked s own (sys.writes s.state p) → ok s.state p

instance {sys : Locking S R P L ε} {ok : S → P → Prop} [∀ s p, Decidable (ok s p)]
    (s : Locked S L) : ∀ p : Phase R (List L × P), Decidable (sys.OnCommit ok s p)
  | .checking _ => .isTrue trivial
  | .committing (own, p) =>
      inferInstanceAs (Decidable (¬Blocked s own (sys.writes s.state p) → ok s.state p))

/-- What every check keeps and every commit that satisfies the condition keeps, every interleaving
keeps. -/
theorem interleave_invariant {sys : Locking S R P L ε} {ok : S → P → Prop} {I : S → Prop}
    (hcheck : ∀ s r s' p, I s → sys.check s r = .ok (s', p) → I s')
    (hcommit : ∀ s p s', I s → ok s p → sys.commit s p = .ok s' → I s')
    {s : Running (Locked S L) (Phase R (List L × P))} (ts : List (Turn R)) (hs : I s.shared.state)
    (hts : sys.sessions.Respects (sys.OnCommit ok) s ts) :
    I (sys.sessions.interleave s ts).shared.state := by
  refine Sessions.shared_invariant (I := fun s : Locked S L => I s.state) (fun s p hs hok => ?_)
    ts hs hts
  cases p with
  | checking r =>
    simp only [sessions]
    split_ifs with hblocked
    · exact hs
    · split
      · next s' p hcheck' => exact hcheck s.state r s' p hs hcheck'
      · exact hs
  | committing q =>
    obtain ⟨own, p⟩ := q
    simp only [sessions]
    split_ifs with hblocked
    · exact hs
    · exact serve_invariant hs fun s' => hcommit s.state p s' hs (hok hblocked)

/-- The locks that a session holds between its steps. -/
def own : Phase R (List L × P) → List L
  | .checking _ => []
  | .committing (own, _) => own

/-- Every session that is about to commit has its locks and what its check has established, and no
two have a lock in common. -/
structure Protected (J : S → List L → P → Prop)
    (s : Running (Locked S L) (Phase R (List L × P))) : Prop where
  held : ∀ p ∈ s.live, own p ⊆ s.shared.held
  plan : ∀ locks p, .committing (locks, p) ∈ s.live → J s.shared.state locks p
  disjoint : s.live.Pairwise fun p q => (own p).Disjoint (own q)

/-- A system without sessions. -/
def idle (state : S) : Running (Locked S L) (Phase R (List L × P)) where
  shared := { state := state, held := [] }
  live := []

omit [DecidableEq L] in
theorem protected_idle (J : S → List L → P → Prop) (state : S) :
    Protected J (idle state : Running (Locked S L) (Phase R (List L × P))) where
  held _ h := nomatch h
  plan _ _ h := nomatch h
  disjoint := .nil

/-- What the checks and commits keep of the state together with a property of each plan that its
check establishes and that a commit keeps when it needs none of the plan's locks. -/
theorem interleave_protected {sys : Locking S R P L ε} {ok : S → P → Prop} {I : S → Prop}
    {J : S → List L → P → Prop}
    (hcheck : ∀ s r s' p, I s → sys.check s r = .ok (s', p) →
      I s' ∧ J s' (sys.reads r) p ∧ ∀ locks q, J s locks q → J s' locks q)
    (hcommit : ∀ s locks p s', I s → J s locks p → ok s p → sys.commit s p = .ok s' →
      I s' ∧ ∀ locks' q, J s locks' q → (∀ l ∈ sys.writes s p, l ∉ locks') → J s' locks' q)
    {s : Running (Locked S L) (Phase R (List L × P))} (ts : List (Turn R)) (hs : I s.shared.state)
    (hlive : Protected J s) (hts : sys.sessions.Respects (sys.OnCommit ok) s ts) :
    I (sys.sessions.interleave s ts).shared.state ∧
      Protected J (sys.sessions.interleave s ts) := by
  let K (s : Locked S L) (p : Phase R (List L × P)) : Prop :=
    own p ⊆ s.held ∧ ∀ locks q, p = .committing (locks, q) → J s.state locks q
  have hstart (s : Locked S L) (r : R) : K s (sys.sessions.start r) :=
    ⟨List.nil_subset _, fun _ _ h => nomatch h⟩
  have hrun := Sessions.interleave_pairwise (I := fun s : Locked S L => I s.state) (J := K)
    (K := fun p q => (own p).Disjoint (own q)) (s := s)
    (fun h => h.symm) (fun s r _ => hstart s r)
    (fun r q => List.disjoint_nil_right _) (fun s p hs hp hok => ?_) ts hs
    (fun p hp => ⟨hlive.held p hp, fun locks q hq => hlive.plan locks q (hq ▸ hp)⟩)
    hlive.disjoint hts
  · exact ⟨hrun.1, fun p hp => (hrun.2.1 p hp).1, fun locks p hp => (hrun.2.1 _ hp).2 locks p rfl,
      hrun.2.2⟩
  · have hstay : I s.state ∧ (∀ p' ∈ some p, K s p') ∧ ∀ q, K s q → (own q).Disjoint (own p) →
        K s q ∧ ∀ p' ∈ some p, (own q).Disjoint (own p') :=
      ⟨hs, fun p' hp' => Option.mem_some_iff.mp hp' ▸ hp, fun q hq hqp =>
        ⟨hq, fun p' hp' => Option.mem_some_iff.mp hp' ▸ hqp⟩⟩
    have hstop : I s.state ∧ (∀ p' ∈ (none : Option (Phase R (List L × P))), K s p') ∧
        ∀ q, K s q → (own q).Disjoint (own p) → K s q ∧
          ∀ p' ∈ (none : Option (Phase R (List L × P))), (own q).Disjoint (own p') :=
      ⟨hs, fun _ h => (nomatch h), fun q hq _ => ⟨hq, fun _ h => nomatch h⟩⟩
    cases p with
    | checking r =>
      simp only [sessions]
      split_ifs with hblocked
      · exact hstay
      · split
        · next s' p hcheck' =>
          obtain ⟨hI, hJ, hkeep⟩ := hcheck s.state r s' p hs hcheck'
          have hfree : ∀ l ∈ sys.reads r, l ∉ s.held := fun l hl hheld =>
            hblocked ⟨l, hl, hheld, List.not_mem_nil⟩
          refine ⟨hI, fun p' hp' => ?_, fun q hq _ => ⟨⟨fun l hl => ?_, fun locks q' hq' => ?_⟩,
            fun p' hp' => ?_⟩⟩
          · obtain rfl := Option.mem_some_iff.mp hp'
            refine ⟨fun l hl => List.mem_append_left _ hl, fun locks q hq => ?_⟩
            obtain ⟨rfl, rfl⟩ := Prod.mk.inj (Phase.committing.inj hq)
            exact hJ
          · exact List.mem_append_right _ (hq.1 hl)
          · exact hkeep locks q' (hq.2 locks q' hq')
          · obtain rfl := Option.mem_some_iff.mp hp'
            exact fun l hl hl' => hfree l hl' (hq.1 hl)
        · exact hstop
    | committing plan =>
      obtain ⟨locks, p⟩ := plan
      simp only [sessions]
      split_ifs with hblocked
      · exact hstay
      · have hJ := hp.2 locks p rfl
        have hheld : ∀ q, K s q → (own q).Disjoint locks →
            own q ⊆ s.held.filter (· ∉ locks) := fun q hq hqp l hl =>
          List.mem_filter.mpr ⟨hq.1 hl, decide_eq_true (hqp hl)⟩
        -- What the commit writes over is not locked by the others.
        have hwrites : ∀ q, K s q → (own q).Disjoint locks →
            ∀ l ∈ sys.writes s.state p, l ∉ own q := fun q hq hqp l hl hown =>
          hblocked ⟨l, hl, hq.1 hown, hqp hown⟩
        cases hw : sys.commit s.state p with
        | error e =>
          rw [serve_of_error hw]
          exact ⟨hs, fun _ h => (nomatch h), fun q hq hqp => ⟨⟨hheld q hq hqp, hq.2⟩,
            fun _ h => nomatch h⟩⟩
        | ok s' =>
          obtain ⟨hI, hkeep⟩ := hcommit s.state locks p s' hs hJ (hok hblocked) hw
          rw [serve_of_ok hw]
          refine ⟨hI, fun _ h => (nomatch h), fun q hq hqp => ⟨⟨hheld q hq hqp, ?_⟩,
            fun _ h => nomatch h⟩⟩
          rintro locks' q' rfl
          exact hkeep locks' q' (hq.2 locks' q' rfl) (hwrites _ hq hqp)

variable {M : Type} [AddCommMonoid M]

/-- What a commit weighs in the state that it commits to; a step that commits nothing weighs
nothing. -/
def committed (sys : Locking S R P L ε) (w : S → P → M) (s : Locked S L) :
    Phase R (List L × P) → M
  | .checking _ => 0
  | .committing (own, p) =>
      if Blocked s own (sys.writes s.state p) then 0
      else
        match sys.commit s.state p with
        | .ok _ => w s.state p
        | .error _ => 0

/-- A measure of the state that the checks leave alone and every commit moves by its weight moves by
the sum of the weights over every interleaving. -/
theorem measure_interleave {sys : Locking S R P L ε} {w : S → P → M} {μ : S → M}
    {J : S → List L → P → Prop} (hcheck : ∀ s r s' p, sys.check s r = .ok (s', p) → μ s' = μ s)
    (hcommit : ∀ s locks p s', J s locks p → sys.commit s p = .ok s' → μ s' = μ s + w s p)
    {s : Running (Locked S L) (Phase R (List L × P))} (ts : List (Turn R))
    (hrun : ∀ ts, Protected J (sys.sessions.interleave s ts)) :
    μ (sys.sessions.interleave s ts).shared.state =
      μ s.shared.state + sys.sessions.weight (sys.committed w) s ts := by
  refine Sessions.measure_interleave (μ := fun s : Locked S L => μ s.state) (I := Protected J)
    (fun s p hs hp => ?_) ts hrun
  cases p with
  | checking r =>
    simp only [sessions, committed, add_zero]
    split_ifs
    · rfl
    · split
      · next s' p hcheck' => exact hcheck s.shared.state r s' p hcheck'
      · rfl
  | committing plan =>
    obtain ⟨own, p⟩ := plan
    simp only [sessions, committed]
    split_ifs
    · exact (add_zero _).symm
    · cases hw : sys.commit s.shared.state p with
      | ok s' =>
        rw [serve_of_ok hw]
        exact hcommit s.shared.state own p s' (hs.plan own p hp) hw
      | error e =>
        rw [serve_of_error hw]
        exact (add_zero _).symm

end Locking

end Pfv
