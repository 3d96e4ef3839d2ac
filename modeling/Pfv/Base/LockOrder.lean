import Pfv.Base.Session
import Mathlib.Logic.Relation
import Mathlib.Order.Defs.LinearOrder

/-!
# Locks that are taken one after another

A request that locks rows as it goes, keeps them up to its commit, and waits where a row that it
wants is locked by another. Where every lock that is waited for comes after the locks that its
request holds, in one order of all rows, no requests wait for each other in a circle.

## Main definitions

* `Locker`: a program that reads, locks and commits.
* `Locker.sessions`: requests that run their programs and interleave.
* `WaitsFor`: a request waits for a row that another one has locked.
* `Locker.InOrder`: the locks up to the next read are in order.
* `Locker.Ascends`: all locks are in order, whatever is read.

## Main results

* `not_waitsFor_cycle`: no circle where every program is in order.
* `Locker.no_cycle_of_inOrder`: no circle in any state of a run, when the programs that need not
  ascend are in order after each read.
-/

namespace Pfv

/-- A program of a request that locks rows of a database as it goes: it reads the database, locks a
row, or writes and releases its locks. -/
inductive Locker (D ρ : Type)
  | commit (write : D → D)
  | read (next : D → Locker D ρ)
  | lock (row : ρ) (next : Locker D ρ)

/-- A request that is running: the locks that it holds and the rest of its program. -/
structure Holder (R D ρ : Type) where
  request : R
  own : List ρ
  rest : Locker D ρ

namespace Locker

variable {R D ρ : Type}

/-- Write nothing and release the locks. -/
def abort : Locker D ρ := .commit id

section Order

variable [LT ρ] [DecidableEq ρ]

/-- The locks up to the next read are held already or come after those that are held. -/
def InOrder : Locker D ρ → List ρ → Prop
  | .lock row next, own =>
      if row ∈ own then next.InOrder own
      else (∀ held ∈ own, held < row) ∧ next.InOrder (row :: own)
  | _, _ => True

instance decidableInOrder [DecidableLT ρ] :
    (prog : Locker D ρ) → (own : List ρ) → Decidable (prog.InOrder own)
  | .commit _, _ | .read _, _ => .isTrue trivial
  | .lock row next, own =>
      have := decidableInOrder next own
      have := decidableInOrder next (row :: own)
      inferInstanceAs (Decidable (if row ∈ own then next.InOrder own
        else (∀ held ∈ own, held < row) ∧ next.InOrder (row :: own)))

/-- All locks are held already or come after those that are held, whatever is read. -/
def Ascends : Locker D ρ → List ρ → Prop
  | .commit _, _ => True
  | .read next, own => ∀ d, (next d).Ascends own
  | .lock row next, own =>
      if row ∈ own then next.Ascends own
      else (∀ held ∈ own, held < row) ∧ next.Ascends (row :: own)

@[simp] theorem ascends_commit (write : D → D) (own : List ρ) :
    (Locker.commit write).Ascends own := trivial

@[simp] theorem ascends_abort (own : List ρ) : (abort : Locker D ρ).Ascends own := trivial

theorem ascends_read {next : D → Locker D ρ} {own : List ρ} (h : ∀ d, (next d).Ascends own) :
    (Locker.read next).Ascends own := h

theorem Ascends.inOrder {prog : Locker D ρ} {own : List ρ} (h : prog.Ascends own) :
    prog.InOrder own := by
  induction prog generalizing own with
  | commit write => trivial
  | read next => trivial
  | lock row next ih =>
    unfold Ascends at h
    unfold InOrder
    split_ifs at h ⊢
    · exact ih h
    · exact ⟨h.1, ih h.2⟩

end Order

/-- Requests that run their programs. One that wants a row that another one has locked waits. -/
def sessions [DecidableEq ρ] (program : R → Locker D ρ) :
    Sessions (Locked D ρ) R (Holder R D ρ) where
  start r := ⟨r, [], program r⟩
  advance s p :=
    match p.rest with
    | .commit write =>
        ({ state := write s.state, held := s.held.filter (· ∉ p.own) }, none)
    | .read next => (s, some { p with rest := next s.state })
    | .lock row next =>
        if row ∈ p.own then (s, some { p with rest := next })
        else if row ∈ s.held then (s, some p)
        else ({ s with held := row :: s.held },
          some { p with own := row :: p.own, rest := next })

end Locker

/-! ### Circles of waiting -/

section Waiting

variable {R D ρ : Type}

/-- The row that a request is about to lock. -/
def Holder.wants (p : Holder R D ρ) : Option ρ :=
  match p.rest with
  | .lock row _ => some row
  | _ => none

/-- A request waits for a row that another one has locked. -/
def WaitsFor (live : List (Holder R D ρ)) (i j : ℕ) : Prop :=
  ∃ p ∈ live[i]?, ∃ q ∈ live[j]?, ∃ row ∈ p.wants, row ∉ p.own ∧ row ∈ q.own

instance [DecidableEq ρ] (live : List (Holder R D ρ)) (i j : ℕ) : Decidable (WaitsFor live i j) :=
  inferInstanceAs
    (Decidable (∃ p ∈ live[i]?, ∃ q ∈ live[j]?, ∃ row ∈ p.wants, row ∉ p.own ∧ row ∈ q.own))

variable [LinearOrder ρ] {live : List (Holder R D ρ)}

/-- What a request that is in order waits for comes after the locks that it holds. -/
theorem own_lt_of_wants {p : Holder R D ρ} {row : ρ} (h : p.rest.InOrder p.own)
    (hrow : row ∈ p.wants) (hown : row ∉ p.own) : ∀ held ∈ p.own, held < row := by
  unfold Holder.wants at hrow
  split at hrow
  · next row' next hrest =>
    cases hrow
    rw [hrest, Locker.InOrder, if_neg hown] at h
    exact h.1
  · cases hrow

/-- Along a chain of requests in order that wait, the rows that are wanted increase. -/
theorem wanted_lt (h : ∀ p ∈ live, p.rest.InOrder p.own) {i j : ℕ}
    (hij : Relation.TransGen (WaitsFor live) i j) :
    ∃ p ∈ live[i]?, ∃ row ∈ p.wants, row ∉ p.own ∧
      ∀ q ∈ live[j]?, ∀ row' ∈ q.wants, row' ∉ q.own → row < row' := by
  induction hij with
  | single hij =>
    obtain ⟨p, hp, q, hq, row, hrow, hfree, hheld⟩ := hij
    refine ⟨p, hp, row, hrow, hfree, fun q' hq' row' hrow' hown' => ?_⟩
    obtain rfl := Option.mem_unique hq hq'
    exact own_lt_of_wants (h q (List.mem_of_getElem? hq)) hrow' hown' row hheld
  | tail _ hjk ih =>
    obtain ⟨p, hp, row, hrow, hfree, hlt⟩ := ih
    obtain ⟨q, hq, r, hr, mid, hmid, hfree', hheld⟩ := hjk
    refine ⟨p, hp, row, hrow, hfree, fun r' hr' row' hrow' hown' => ?_⟩
    obtain rfl := Option.mem_unique hr hr'
    exact (hlt q hq mid hmid hfree').trans
      (own_lt_of_wants (h r (List.mem_of_getElem? hr)) hrow' hown' mid hheld)

/-- Requests that are in order do not wait for each other in a circle. -/
theorem not_waitsFor_cycle (h : ∀ p ∈ live, p.rest.InOrder p.own) (i : ℕ) :
    ¬Relation.TransGen (WaitsFor live) i i := by
  intro hcycle
  obtain ⟨p, hp, row, hrow, hfree, hlt⟩ := wanted_lt h hcycle
  exact lt_irrefl row (hlt p hp row hrow hfree)

end Waiting

/-! ### Runs -/

namespace Locker

variable {R D ρ : Type} [LinearOrder ρ]

/-- After the next read of a request, the locks up to the one after it are in order. -/
def ReadsInOrder (d : D) (p : Holder R D ρ) : Prop :=
  match p.rest with
  | .read next => (next d).InOrder p.own
  | _ => True

instance (d : D) : DecidablePred (ReadsInOrder (R := R) (ρ := ρ) d)
  | ⟨_, own, .read next⟩ => inferInstanceAs (Decidable ((next d).InOrder own))
  | ⟨_, _, .commit _⟩ | ⟨_, _, .lock _ _⟩ => .isTrue trivial

/-- A request is in order up to its next read, and to its end when its program ascends. -/
structure Disciplined (careful : R → Prop) (p : Holder R D ρ) : Prop where
  inOrder : p.rest.InOrder p.own
  ascends : careful p.request → p.rest.Ascends p.own

theorem disciplined_advance {program : R → Locker D ρ} {careful : R → Prop} {s : Locked D ρ}
    {p : Holder R D ρ} (hp : Disciplined careful p)
    (hok : ¬careful p.request → ReadsInOrder s.state p) :
    ∀ p' ∈ ((sessions program).advance s p).2, Disciplined careful p' := by
  intro p' hp'
  obtain ⟨request, own, rest⟩ := p
  cases rest with
  | commit write => cases hp'
  | read next =>
    obtain rfl := Option.some.inj hp'
    have hnext : careful request → (next s.state).Ascends own := fun hc => hp.ascends hc s.state
    refine ⟨?_, hnext⟩
    by_cases hc : careful request
    · exact (hnext hc).inOrder
    · exact hok hc
  | lock row next =>
    obtain ⟨hinOrder, hascends⟩ := hp
    simp only [InOrder, Ascends] at hinOrder hascends
    simp only [sessions] at hp'
    split_ifs at hp' with hown hheld
    · obtain rfl := Option.some.inj hp'
      rw [if_pos hown] at hinOrder
      simp only [if_pos hown] at hascends
      exact ⟨hinOrder, hascends⟩
    · obtain rfl := Option.some.inj hp'
      exact ⟨by simpa only [InOrder] using hinOrder, by simpa only [Ascends] using hascends⟩
    · obtain rfl := Option.some.inj hp'
      rw [if_neg hown] at hinOrder
      simp only [if_neg hown] at hascends
      exact ⟨hinOrder.2, fun hc => (hascends hc).2⟩

/-- In every run in which the requests whose programs need not ascend are in order after each of
their reads, no requests ever wait for each other in a circle. -/
theorem no_cycle_of_inOrder {program : R → Locker D ρ} (careful : R → Prop)
    (hstart : ∀ r, (program r).InOrder []) (hcareful : ∀ r, careful r → (program r).Ascends [])
    (s : Locked D ρ) (ts : List (Turn R))
    (hts : (sessions program).Respects
      (fun s p => ¬careful p.request → ReadsInOrder s.state p) ⟨s, []⟩ ts) (i : ℕ) :
    ¬Relation.TransGen (WaitsFor ((sessions program).interleave ⟨s, []⟩ ts).live) i i := by
  refine not_waitsFor_cycle (fun p hp => ?_) i
  have hrun := (Sessions.interleave_local (I := fun _ => True) (J := fun _ => Disciplined careful)
    (fun s r _ => ⟨hstart r, hcareful r⟩)
    (fun s p _ hp hok => ⟨trivial, disciplined_advance hp hok, fun q hq => hq⟩) ts trivial
    (by simp) hts).2 p hp
  exact hrun.inOrder

end Locker

end Pfv
