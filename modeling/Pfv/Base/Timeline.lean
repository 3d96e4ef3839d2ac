import Mathlib.Tactic

/-!
# Spans of time

A set of spans of time, closed ones with a last day and open ones without. An open span lasts until
the next later span starts. This file says when no two spans cover the same day, and when that stays
true after the changes a calendar of spans goes through.

## Main definitions

* `Span`, `Span.Covers`: the days a span covers among others.
* `Timeline`: at most one span is open, none is empty, and no day is covered twice.
* `Span.closeAt`, `Span.moveOpen`: close the open span on a day and open the next; move its start.

## Main results

* `timeline_closeAt_iff`, `timeline_moveOpen_iff`, `timeline_insert_iff`: when the changes keep a
  timeline.
-/

namespace Pfv

/-- A span of days. -/
@[ext] structure Span where
  start : ℕ
  stop : Option ℕ
  deriving DecidableEq

namespace Span

/-- A span covers a day: up to its last day, or until the next span starts. -/
def Covers (S : Set Span) (p : Span) (x : ℕ) : Prop :=
  p.start ≤ x ∧ (∀ e, p.stop = some e → x ≤ e) ∧
    (p.stop = none → ∀ q ∈ S, p.start < q.start → x < q.start)

/-- Close the open span on a day and open the one that starts the day after. -/
def closeAt (S : Set Span) (cur : Span) (c : ℕ) : Set Span :=
  {p | p = ⟨cur.start, some c⟩ ∨ p = ⟨c + 1, none⟩ ∨ (p ∈ S ∧ p ≠ cur ∧ p.start ≠ c + 1)}

/-- Move the start of the open span. -/
def moveOpen (S : Set Span) (cur : Span) (n : ℕ) : Set Span :=
  {p | p = ⟨n, none⟩ ∨ (p ∈ S ∧ p ≠ cur)}

end Span

/-- Spans of which at most one is open, none is empty, and no two cover the same day. -/
structure Timeline (S : Set Span) : Prop where
  opened : ∀ p ∈ S, ∀ q ∈ S, p.stop = none → q.stop = none → p = q
  nonempty : ∀ p ∈ S, ∀ e, p.stop = some e → p.start ≤ e
  disjoint : ∀ p ∈ S, ∀ q ∈ S, ∀ x, p.Covers S x → q.Covers S x → p = q

namespace Timeline

variable {S : Set Span} {p q cur : Span} {c e n s : ℕ}

theorem covers_start (h : Timeline S) (hp : p ∈ S) : p.Covers S p.start :=
  ⟨le_rfl, fun e he => h.nonempty p hp e he, fun _ _ _ hq => hq⟩

/-- Spans are determined by their start. -/
theorem start_inj (h : Timeline S) (hp : p ∈ S) (hq : q ∈ S) (hstart : p.start = q.start) : p = q :=
  h.disjoint p hp q hq p.start (h.covers_start hp) (hstart ▸ h.covers_start hq)

/-- The spans before the open one end before it starts. -/
theorem stop_lt (h : Timeline S) (hcur : cur ∈ S) (hopen : cur.stop = none) (hp : p ∈ S)
    (he : p.stop = some e) (hlt : p.start < cur.start) : e < cur.start := by
  by_contra hle
  have hcovers : p.Covers S cur.start :=
    ⟨hlt.le, fun e' he' => by
      rw [he, Option.some_inj] at he'
      omega, fun hnone => by simp [he] at hnone⟩
  have heq := h.disjoint p hp cur hcur cur.start hcovers (h.covers_start hcur)
  rw [heq, hopen] at he
  exact absurd he (by simp)

/-- Every span but the open one is closed. -/
theorem exists_stop (h : Timeline S) (hcur : cur ∈ S) (hopen : cur.stop = none) (hp : p ∈ S)
    (hne : p ≠ cur) : ∃ e, p.stop = some e := by
  cases hstop : p.stop with
  | none => exact absurd (h.opened p hp cur hcur hstop hopen) hne
  | some e => exact ⟨e, rfl⟩

theorem empty : Timeline ∅ :=
  ⟨fun _ hp => absurd hp (Set.notMem_empty _), fun _ hp => absurd hp (Set.notMem_empty _),
    fun _ hp => absurd hp (Set.notMem_empty _)⟩

theorem singleton (s : ℕ) : Timeline {⟨s, none⟩} := by
  refine ⟨?_, ?_, ?_⟩
  · rintro p rfl q rfl _ _
    rfl
  · rintro p rfl e he
    simp at he
  · rintro p rfl q rfl x _ _
    rfl

end Timeline

variable {S : Set Span} {cur : Span} {c e n s : ℕ}

/-- Closing the open span keeps a timeline exactly when no later span has started by that day. -/
theorem timeline_closeAt_iff (h : Timeline S) (hcur : cur ∈ S) (hopen : cur.stop = none)
    (hc : cur.start ≤ c) :
    Timeline (Span.closeAt S cur c) ↔ ∀ p ∈ S, cur.start < p.start → c < p.start := by
  constructor
  · intro h' p hp hlater
    by_contra hle
    have hne : p ≠ cur := by
      rintro rfl
      exact lt_irrefl _ hlater
    have hp' : p ∈ Span.closeAt S cur c := .inr (.inr ⟨hp, hne, by omega⟩)
    have hclosed : (⟨cur.start, some c⟩ : Span) ∈ Span.closeAt S cur c := .inl rfl
    have hcovers : (⟨cur.start, some c⟩ : Span).Covers (Span.closeAt S cur c) p.start :=
      ⟨hlater.le, fun e he => by
        have := Option.some.inj he
        omega, fun hnone => by simp at hnone⟩
    have heq := h'.disjoint p hp' _ hclosed p.start (h'.covers_start hp') hcovers
    rw [heq] at hlater
    exact lt_irrefl _ hlater
  · intro hlater
    -- Every other span ends before the open one starts, or starts after the day it is closed.
    have hside : ∀ p ∈ S, p ≠ cur → p.start ≠ c + 1 → ∃ e, p.stop = some e ∧ p.start ≤ e ∧
        (e < cur.start ∨ c + 1 < p.start) := by
      intro p hp hne hstart
      obtain ⟨e, he⟩ := h.exists_stop hcur hopen hp hne
      refine ⟨e, he, h.nonempty p hp e he, ?_⟩
      rcases lt_trichotomy p.start cur.start with hlt | heq | hgt
      · exact .inl (h.stop_lt hcur hopen hp he hlt)
      · exact absurd (h.start_inj hp hcur heq) hne
      · have := hlater p hp hgt
        exact .inr (by omega)
    refine ⟨?_, ?_, ?_⟩
    · rintro p (rfl | rfl | ⟨hp, hne, hstart⟩) q (rfl | rfl | ⟨hq, hne', hstart'⟩) hpo hqo
      any_goals rfl
      any_goals simp at hpo
      any_goals simp at hqo
      · obtain ⟨e, he, -⟩ := hside q hq hne' hstart'
        simp [he] at hqo
      · obtain ⟨e, he, -⟩ := hside p hp hne hstart
        simp [he] at hpo
      · exact h.opened p hp q hq hpo hqo
    · rintro p (rfl | rfl | ⟨hp, -, -⟩) e he
      · rw [← Option.some.inj he]
        exact hc
      · simp at he
      · exact h.nonempty p hp e he
    · have hnew : ∀ q ∈ S, q ≠ cur → q.start ≠ c + 1 → ∀ x, q.Covers (Span.closeAt S cur c) x →
          ¬(cur.start ≤ x ∧ x ≤ c) ∧
            ¬(⟨c + 1, none⟩ : Span).Covers (Span.closeAt S cur c) x := by
        intro q hq hne hstart x hx
        obtain ⟨e, he, hle, hcase⟩ := hside q hq hne hstart
        have hxe := hx.2.1 e he
        have hxs := hx.1
        refine ⟨by omega, fun hcov => ?_⟩
        have hcx : c + 1 ≤ x := hcov.1
        have hlt : c + 1 < q.start := by omega
        have := hcov.2.2 rfl q (.inr (.inr ⟨hq, hne, hstart⟩)) hlt
        omega
      rintro p (rfl | rfl | ⟨hp, hne, hstart⟩) q (rfl | rfl | ⟨hq, hne', hstart'⟩) x hpx hqx
      · rfl
      · have := hpx.2.1 c rfl
        have := hqx.1
        simp only at this
        omega
      · exact absurd ⟨hpx.1, hpx.2.1 c rfl⟩ (hnew q hq hne' hstart' x hqx).1
      · have := hqx.2.1 c rfl
        have := hpx.1
        simp only at this
        omega
      · rfl
      · exact absurd hpx (hnew q hq hne' hstart' x hqx).2
      · exact absurd ⟨hqx.1, hqx.2.1 c rfl⟩ (hnew p hp hne hstart x hpx).1
      · exact absurd hqx (hnew p hp hne hstart x hpx).2
      · obtain ⟨e, he, -⟩ := hside p hp hne hstart
        obtain ⟨e', he', -⟩ := hside q hq hne' hstart'
        exact h.disjoint p hp q hq x ⟨hpx.1, hpx.2.1, fun hnone => by simp [he] at hnone⟩
          ⟨hqx.1, hqx.2.1, fun hnone => by simp [he'] at hnone⟩

/-- Moving the open span keeps a timeline exactly when no other span covers its new start. -/
theorem timeline_moveOpen_iff (h : Timeline S) (hcur : cur ∈ S) (hopen : cur.stop = none) :
    Timeline (Span.moveOpen S cur n) ↔
      ∀ p ∈ S, p ≠ cur → ∀ e, p.stop = some e → ¬(p.start ≤ n ∧ n ≤ e) := by
  constructor
  · rintro h' p hp hne e he ⟨hpn, hne'⟩
    have hp' : p ∈ Span.moveOpen S cur n := .inr ⟨hp, hne⟩
    have hnew : (⟨n, none⟩ : Span) ∈ Span.moveOpen S cur n := .inl rfl
    have hcovers : p.Covers (Span.moveOpen S cur n) n :=
      ⟨hpn, fun e' he' => by
        rw [he, Option.some_inj] at he'
        omega, fun hnone => by simp [he] at hnone⟩
    have heq := h'.disjoint p hp' _ hnew n hcovers (h'.covers_start hnew)
    rw [heq] at he
    simp at he
  · intro hfree
    have hclosed : ∀ p ∈ S, p ≠ cur → p.stop ≠ none := fun p hp hne hnone => by
      obtain ⟨e, he⟩ := h.exists_stop hcur hopen hp hne
      simp [he] at hnone
    have hnew : ∀ q ∈ S, q ≠ cur → ∀ x, q.Covers (Span.moveOpen S cur n) x →
        ¬(⟨n, none⟩ : Span).Covers (Span.moveOpen S cur n) x := by
      intro q hq hne x hqx hcov
      obtain ⟨e, he⟩ := h.exists_stop hcur hopen hq hne
      have hxe := hqx.2.1 e he
      have hxs := hqx.1
      have hnx : n ≤ x := hcov.1
      by_cases hlater : n < q.start
      · have := hcov.2.2 rfl q (.inr ⟨hq, hne⟩) hlater
        omega
      · exact hfree q hq hne e he ⟨by omega, by omega⟩
    refine ⟨?_, ?_, ?_⟩
    · rintro p (rfl | ⟨hp, hne⟩) q (rfl | ⟨hq, hne'⟩) hpo hqo
      · rfl
      · exact absurd hqo (hclosed q hq hne')
      · exact absurd hpo (hclosed p hp hne)
      · exact h.opened p hp q hq hpo hqo
    · rintro p (rfl | ⟨hp, -⟩) e he
      · simp at he
      · exact h.nonempty p hp e he
    · rintro p (rfl | ⟨hp, hne⟩) q (rfl | ⟨hq, hne'⟩) x hpx hqx
      · rfl
      · exact absurd hpx (hnew q hq hne' x hqx)
      · exact absurd hqx (hnew p hp hne x hpx)
      · exact h.disjoint p hp q hq x
          ⟨hpx.1, hpx.2.1, fun hnone => absurd hnone (hclosed p hp hne)⟩
          ⟨hqx.1, hqx.2.1, fun hnone => absurd hnone (hclosed q hq hne')⟩

/-- A closed span added after the start of the open one keeps a timeline exactly when it is clear of
every later span. -/
theorem timeline_insert_iff (h : Timeline S) (hcur : cur ∈ S) (hopen : cur.stop = none)
    (hs : cur.start < s) (he : s ≤ e) (hnew : ∀ p ∈ S, p.start ≠ s) :
    Timeline (insert ⟨s, some e⟩ S) ↔
      ∀ p ∈ S, cur.start < p.start → ∀ e', p.stop = some e' → e' < s ∨ e < p.start := by
  constructor
  · intro h' p hp hlater e' he'
    by_contra hover
    have hp' : p ∈ insert (⟨s, some e⟩ : Span) S := Set.mem_insert_of_mem _ hp
    have hmem : (⟨s, some e⟩ : Span) ∈ insert (⟨s, some e⟩ : Span) S := Set.mem_insert _ _
    have hle := h.nonempty p hp e' he'
    have hcov : p.Covers (insert ⟨s, some e⟩ S) (max s p.start) :=
      ⟨le_max_right _ _, fun e'' he'' => by
        rw [he', Option.some_inj] at he''
        omega, fun hnone => by simp [he'] at hnone⟩
    have hcov' : (⟨s, some e⟩ : Span).Covers (insert ⟨s, some e⟩ S) (max s p.start) :=
      ⟨le_max_left _ _, fun e'' he'' => by
        have := Option.some.inj he''
        omega, fun hnone => by simp at hnone⟩
    have heq := h'.disjoint p hp' _ hmem _ hcov hcov'
    exact hnew p hp (by rw [heq])
  · intro hclear
    have hapart : ∀ p ∈ S, ∀ x, s ≤ x → x ≤ e → ¬p.Covers (insert ⟨s, some e⟩ S) x := by
      intro p hp x hsx hxe hpx
      cases hstop : p.stop with
      | none =>
        obtain rfl := h.opened p hp cur hcur hstop hopen
        have := hpx.2.2 hstop _ (Set.mem_insert _ _) hs
        simp only at this
        omega
      | some e' =>
        have hxe' := hpx.2.1 e' hstop
        have hxs := hpx.1
        rcases lt_trichotomy p.start cur.start with hlt | heq | hgt
        · have := h.stop_lt hcur hopen hp hstop hlt
          omega
        · rw [h.start_inj hp hcur heq, hopen] at hstop
          simp at hstop
        · rcases hclear p hp hgt e' hstop with hlt | hlt <;> omega
    -- Among more spans a span covers no more days.
    have hmono : ∀ p : Span, ∀ x, p.Covers (insert ⟨s, some e⟩ S) x → p.Covers S x :=
      fun p x hpx => ⟨hpx.1, hpx.2.1, fun hnone q hq =>
        hpx.2.2 hnone q (Set.mem_insert_of_mem _ hq)⟩
    refine ⟨?_, ?_, ?_⟩
    · rintro p (rfl | hp) q (rfl | hq) hpo hqo
      · rfl
      · simp at hpo
      · simp at hqo
      · exact h.opened p hp q hq hpo hqo
    · rintro p (rfl | hp) e' he'
      · rw [← Option.some.inj he']
        exact he
      · exact h.nonempty p hp e' he'
    · rintro p (rfl | hp) q (rfl | hq) x hpx hqx
      · rfl
      · exact absurd hqx (hapart q hq x hpx.1 (hpx.2.1 e rfl))
      · exact absurd hpx (hapart p hp x hqx.1 (hqx.2.1 e rfl))
      · exact h.disjoint p hp q hq x (hmono p x hpx) (hmono q x hqx)

end Pfv
