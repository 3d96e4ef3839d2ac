import Pfv.Services.AuthSessions

/-!
# Cutoffs and seconds

A token carries the second of its issue, cut off, and a column keeps the cutoff of a user in whole
seconds, rounded. A token of an earlier second than the cutoff is always rejected. A token that is
issued after the cutoff in the same second is accepted only when the cutoff was rounded down.

## Main definitions

* `roundToSecond`: how a column keeps an instant.
* `CutoffEvent`: what records a cutoff; `cutoffsOf`: the columns after a history of events.
* `CutoffOrders`: tokens from an event on are accepted, and those of earlier seconds rejected.

## Main results

* `tokenCutoff_cutoffsOf`: the cutoff is the stored instant of the last event.
* `cutoffOrders_iff`: the events and tokens for which the cutoff does what it should.
-/

namespace Pfv

/-- A `DATETIME` column keeps the nearest whole second. -/
def roundToSecond (t : ℤ) : ℤ := ofSeconds ((t + 500000) / 1000000)

/-- The events that record a cutoff. -/
inductive CutoffEvent
  | passwordChange
  | passwordReset
  | emailChange
  | reactivation
  | deactivation
  deriving DecidableEq

/-- The columns after an event at an instant. -/
def CutoffEvent.apply (user : AuthUser) (now : ℤ) : CutoffEvent → AuthUser
  | .passwordChange | .passwordReset => Invalidation.password.apply roundToSecond now user
  | .emailChange => Invalidation.email.apply roundToSecond now user
  | .reactivation =>
      { Invalidation.password.apply roundToSecond now user with isActive := true }
  | .deactivation => Invalidation.deactivation.apply roundToSecond now user

/-- The columns of a user after a history of events with their instants. -/
def cutoffsOf (history : List (CutoffEvent × ℤ)) : AuthUser :=
  history.foldl (fun user ev => ev.1.apply user ev.2) {}

/-- As far as the cutoff goes, a token issued at `i`, at `e` or after it, is accepted, and one of an
earlier second than `e` is rejected. -/
def CutoffOrders (user : AuthUser) (e i : ℤ) : Prop :=
  (e ≤ i → ¬IssuedBeforeCutoff user (secondOf i)) ∧
    (secondOf i < secondOf e → IssuedBeforeCutoff user (secondOf i))

theorem roundToSecond_mono {a b : ℤ} (h : a ≤ b) : roundToSecond a ≤ roundToSecond b := by
  unfold roundToSecond ofSeconds
  omega

/-- Neither column is later than an instant. -/
def AuthUser.CutoffsBy (user : AuthUser) (t : ℤ) : Prop :=
  (∀ c ∈ user.passwordChangedAt, c ≤ t) ∧ ∀ c ∈ user.sessionsInvalidatedAt, c ≤ t

/-- An event writes the later column, or both. -/
theorem CutoffEvent.sessionsInvalidatedAt_apply (ev : CutoffEvent) (user : AuthUser) (now : ℤ) :
    (ev.apply user now).sessionsInvalidatedAt = some (roundToSecond now) ∧
      ((ev.apply user now).passwordChangedAt = some (roundToSecond now) ∨
        (ev.apply user now).passwordChangedAt = user.passwordChangedAt) := by
  cases ev with
  | passwordChange => exact ⟨rfl, Or.inl rfl⟩
  | passwordReset => exact ⟨rfl, Or.inl rfl⟩
  | emailChange => exact ⟨rfl, Or.inr rfl⟩
  | reactivation => exact ⟨rfl, Or.inl rfl⟩
  | deactivation => exact ⟨rfl, Or.inr rfl⟩

theorem CutoffEvent.cutoffsBy_apply (ev : CutoffEvent) {user : AuthUser} {now t : ℤ}
    (h : user.CutoffsBy t) (hnow : roundToSecond now ≤ t) : (ev.apply user now).CutoffsBy t := by
  obtain ⟨hsessions, hpassword⟩ := ev.sessionsInvalidatedAt_apply user now
  constructor
  · rcases hpassword with hpassword | hpassword
    · rw [hpassword]
      rintro c ⟨⟩
      exact hnow
    · rw [hpassword]
      exact h.1
  · rw [hsessions]
    rintro c ⟨⟩
    exact hnow

/-- After events up to an instant, no column is later than its stored value. -/
theorem cutoffsBy_cutoffsOf {history : List (CutoffEvent × ℤ)} {e : ℤ}
    (h : ∀ ev ∈ history, ev.2 ≤ e) : (cutoffsOf history).CutoffsBy (roundToSecond e) := by
  have hrun : ∀ (l : List (CutoffEvent × ℤ)) (user : AuthUser), (∀ ev ∈ l, ev.2 ≤ e) →
      user.CutoffsBy (roundToSecond e) →
      (l.foldl (fun user ev => ev.1.apply user ev.2) user).CutoffsBy (roundToSecond e) := by
    intro l
    induction l with
    | nil => exact fun _ _ h => h
    | cons ev l ih =>
      intro user hl huser
      obtain ⟨hev, hl⟩ := List.forall_mem_cons.mp hl
      exact ih _ hl (ev.1.cutoffsBy_apply huser (roundToSecond_mono hev))
  exact hrun history {} h ⟨by simp, by simp⟩

/-- The cutoff of a user is the stored instant of the last event. -/
theorem tokenCutoff_cutoffsOf {history : List (CutoffEvent × ℤ)} {e : ℤ}
    (h : ∀ ev ∈ history, ev.2 ≤ e) (ev : CutoffEvent) :
    tokenCutoff (cutoffsOf (history ++ [(ev, e)])) = some (roundToSecond e) := by
  have hlast : cutoffsOf (history ++ [(ev, e)]) = ev.apply (cutoffsOf history) e := by
    rw [cutoffsOf, List.foldl_append]
    rfl
  obtain ⟨hsessions, hpassword⟩ := ev.sessionsInvalidatedAt_apply (cutoffsOf history) e
  rw [hlast, tokenCutoff, hsessions]
  rcases hpassword with hpassword | hpassword
  · rw [hpassword]
    exact congrArg some (max_self _)
  · rw [hpassword]
    cases hchanged : (cutoffsOf history).passwordChangedAt with
    | none => rfl
    | some changed =>
      exact congrArg some (max_eq_right ((cutoffsBy_cutoffsOf h).1 changed hchanged))

/-- After any history, the cutoff that an event at `e` records orders a token issued at `i` as it
should, just unless the token is issued after the event in the same second and the event is in the
second half of that second. -/
theorem cutoffOrders_iff {history : List (CutoffEvent × ℤ)} {e : ℤ} (h : ∀ ev ∈ history, ev.2 ≤ e)
    (ev : CutoffEvent) (i : ℤ) :
    CutoffOrders (cutoffsOf (history ++ [(ev, e)])) e i ↔
      ¬(e ≤ i ∧ secondOf i = secondOf e ∧ 500000 ≤ e % 1000000) := by
  have hissued : IssuedBeforeCutoff (cutoffsOf (history ++ [(ev, e)])) (secondOf i) ↔
      ofSeconds (secondOf i) < roundToSecond e := by
    rw [IssuedBeforeCutoff, tokenCutoff_cutoffsOf h]
    simp
  rw [CutoffOrders, hissued]
  unfold roundToSecond ofSeconds secondOf
  omega

/-- A reactivation after a change of the address. -/
theorem cutoffOrders_sampleHistory :
    CutoffOrders (cutoffsOf [(.emailChange, 1000000000), (.reactivation, 1000200000)]) 1000200000
      1000300000 :=
  (@cutoffOrders_iff [(.emailChange, 1000000000)] 1000200000 (by decide) .reactivation
    1000300000).mpr (by decide)

/-- A login a tenth of a second after the password was changed, at 0.7 seconds of the second, is
rejected. -/
theorem loginAfterChange_rejected :
    ¬CutoffOrders (cutoffsOf [(.passwordChange, 1000700000)]) 1000700000 1000800000 := by
  intro h
  exact absurd (h.1 (by decide)) (by decide)

end Pfv
