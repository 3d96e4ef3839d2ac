import Pfv.Services.OrgResetLock

/-!
# The reset lease is exclusive

Calls that acquire and release the lease of one organisation interleave in any order, with any time
between two steps. A lease that a call has got and not released is either the one in the row or
stale: another call writes the row only when there is none or when the one there was stale by a
clock read earlier, and a release deletes the row only under its own token. So two leases that are
not released are never both fresh.

## Main definitions

* `ResetCall.lease`: the lease of a call that has read the clock.
* `ResetCall.acquired`: the lease that a call has got and not released.
* `ResetCall.Tracked`: what the row and the clock say of a call.

## Main results

* `ResetLock.tracked`: every call is tracked and no two calls have one token, in every interleaving.
* `ResetLock.exclusive`: at most one fresh lease is held, and a release by a holder whose lease was
  taken over leaves the lease of the successor as it is.
-/

namespace Pfv

/-- The lease of a call that has read the clock and generated its token. -/
def ResetCall.lease : ResetCall → Option ResetLease
  | .acquiring _ => none
  | .inserting _ l => some l
  | .takingOver _ l => some l
  | .returning l => some l
  | .holding l => some l
  | .released l => some l
  | .elapsing _ => none

/-- The lease that a call has written and not released. -/
def ResetCall.acquired : ResetCall → Option ResetLease
  | .returning l => some l
  | .holding l => some l
  | _ => none

/-- The clock value from which a call that has not acquired the lease tells what is stale. -/
def ResetCall.readAt : ResetCall → Option ℤ
  | .inserting now _ => some now
  | .takingOver now _ => some now
  | _ => none

/-- A call has returned a token that is not released, and its lease is fresh. -/
def ResetCall.HoldsAt (now : ℤ) : ResetCall → Prop
  | .holding l => ¬l.StaleAt now
  | _ => False

instance (now : ℤ) : DecidablePred (ResetCall.HoldsAt now)
  | .holding l => inferInstanceAs (Decidable (¬l.StaleAt now))
  | .acquiring _ | .inserting _ _ | .takingOver _ _ | .returning _ | .released _ | .elapsing _ =>
      .isFalse id

theorem ResetLease.StaleAt.mono {l : ResetLease} {now now' : ℤ} (h : l.StaleAt now)
    (hle : now ≤ now') : l.StaleAt now' := by
  unfold StaleAt at *
  omega

theorem ResetCall.lease_of_acquired {c : ResetCall} {l : ResetLease} (h : l ∈ c.acquired) :
    l ∈ c.lease := by
  cases c <;> first | exact h | cases h

/-- What the row and the clock say of a call: its token has been generated, a row with its token is
its own lease, a lease that it has and has not released is in the row or stale, and it has read the
clock in the past. -/
structure ResetCall.Tracked (s : ResetLock) (c : ResetCall) : Prop where
  minted : ∀ l ∈ c.lease, l.leaseToken < s.minted
  own : ∀ l ∈ c.lease, ∀ r ∈ s.row, r.leaseToken = l.leaseToken → r = l
  current : ∀ l ∈ c.acquired, s.row = some l ∨ l.StaleAt s.clock
  past : ∀ now ∈ c.readAt, now ≤ s.clock

/-- Two calls have different tokens. -/
def ResetCall.Apart (c d : ResetCall) : Prop :=
  ∀ l ∈ c.lease, ∀ m ∈ d.lease, l.leaseToken ≠ m.leaseToken

theorem ResetCall.Apart.symm {c d : ResetCall} (h : c.Apart d) : d.Apart c :=
  fun l hl m hm heq => h m hm l hl heq.symm

namespace ResetLock

/-- The token in the row, if any, has been generated. -/
def RowMinted (s : ResetLock) : Prop :=
  ∀ r ∈ s.row, r.leaseToken < s.minted

variable {store : ℤ → ℤ} {s : ResetLock} {c d : ResetCall} {l : ResetLease}

/-! ### Writes of the row -/

theorem releaseResetLock_row_of_ne {token : ℕ} {r : ResetLease} (hrow : s.row = some r)
    (hne : r.leaseToken ≠ token) : s.releaseResetLock token = s := by
  simp only [releaseResetLock, hrow, if_neg hne]

theorem releaseResetLock_cases (s : ResetLock) (token : ℕ) :
    s.releaseResetLock token = s ∨
      s.releaseResetLock token = { s with row := none } ∧
        ∃ r ∈ s.row, r.leaseToken = token := by
  cases hrow : s.row with
  | none => exact .inl (by simp only [releaseResetLock, hrow])
  | some r =>
    by_cases hr : r.leaseToken = token
    · exact .inr ⟨by simp only [releaseResetLock, hrow, if_pos hr], r, rfl, hr⟩
    · exact .inl (releaseResetLock_row_of_ne hrow hr)

/-- A call stays tracked when the row is written by another call, which found no row or a stale
one. -/
theorem tracked_of_write (hc : c.Tracked s) (hl : ∀ m ∈ c.lease, l.leaseToken ≠ m.leaseToken)
    (hstale : ∀ r ∈ s.row, r.StaleAt s.clock) : c.Tracked { s with row := some l } where
  minted := hc.minted
  own m hm r hr heq := by
    obtain rfl := Option.some.inj hr
    exact absurd heq (hl m hm)
  current m hm := by
    rcases hc.current m hm with hrow | hm'
    · exact .inr (hstale m hrow)
    · exact .inr hm'
  past := hc.past

/-- A call stays tracked when the row is deleted under the token of another call. -/
theorem tracked_of_release {token : ℕ} (hc : c.Tracked s)
    (hl : ∀ m ∈ c.acquired, token ≠ m.leaseToken) : c.Tracked (s.releaseResetLock token) := by
  rcases releaseResetLock_cases s token with h | ⟨h, r, hr, rfl⟩
  · rwa [h]
  · rw [h]
    refine ⟨hc.minted, fun m _ r hr => (by simp at hr), fun m hm => ?_, hc.past⟩
    rcases hc.current m hm with hrow | hm'
    · exact absurd (congrArg _ (Option.some.inj (hr.symm.trans hrow))) (hl m hm)
    · exact .inr hm'

/-- The call that writes the row. -/
theorem tracked_returning (hmint : l.leaseToken < s.minted) :
    (ResetCall.returning l).Tracked { s with row := some l } where
  minted m hm := by
    obtain rfl := Option.some.inj hm
    exact hmint
  own m hm r hr _ := (Option.some.inj hr).symm.trans (Option.some.inj hm)
  current m hm := .inl hm
  past now hnow := by cases hnow

/-! ### Steps -/

theorem rowMinted_releaseResetLock {token : ℕ} (hs : s.RowMinted) :
    (s.releaseResetLock token).RowMinted := by
  rcases releaseResetLock_cases s token with h | ⟨h, -⟩
  · rwa [h]
  · rw [h]
    intro r hr
    cases hr

/-- A release by a call that was tracked: the call, and every other one. -/
theorem tracked_released (hs : s.RowMinted) (hc : c.Tracked s) (hl : c.lease = some l) :
    (s.releaseResetLock l.leaseToken).RowMinted ∧
      (ResetCall.released l).Tracked (s.releaseResetLock l.leaseToken) ∧
        ∀ d : ResetCall, d.Tracked s → d.Apart c →
          d.Tracked (s.releaseResetLock l.leaseToken) ∧ d.Apart (.released l) := by
  refine ⟨rowMinted_releaseResetLock hs, ?_, fun d hd hdc => ⟨?_, ?_⟩⟩
  · have hrel : (ResetCall.released l).Tracked s :=
      ⟨fun m hm => hc.minted m (hl.trans hm), fun m hm => hc.own m (hl.trans hm),
        fun m hm => (by cases hm), fun now hnow => (by cases hnow)⟩
    exact tracked_of_release hrel fun m hm => (by cases hm)
  · exact tracked_of_release hd fun m hm heq =>
      hdc m (ResetCall.lease_of_acquired hm) l hl heq.symm
  · exact fun m hm n hn => hdc m hm n (hl.trans hn)

/-- A write of the row by a tracked call that found no row or a stale one: the call, and every other
one. -/
theorem tracked_written (hc : c.Tracked s) (hl : c.lease = some l)
    (hstale : ∀ r ∈ s.row, r.StaleAt s.clock) :
    ({ s with row := some l } : ResetLock).RowMinted ∧
      (ResetCall.returning l).Tracked { s with row := some l } ∧
        ∀ d : ResetCall, d.Tracked s → d.Apart c →
          d.Tracked { s with row := some l } ∧ d.Apart (.returning l) := by
  have hmint : l.leaseToken < s.minted := hc.minted l hl
  refine ⟨fun r hr => ?_, tracked_returning hmint, fun d hd hdc => ⟨?_, ?_⟩⟩
  · obtain rfl := Option.some.inj hr
    exact hmint
  · exact tracked_of_write hd (fun m hm heq => hdc m hm l hl heq.symm) hstale
  · exact fun m hm n hn => hdc m hm n (hl.trans hn)

/-- The start of a call: its token is new. -/
theorem tracked_acquiring (hs : s.RowMinted) (userId : ℕ) :
    (s.advance store (.acquiring userId)).1.RowMinted ∧
      (∀ c' ∈ (s.advance store (.acquiring userId)).2,
        c'.Tracked (s.advance store (.acquiring userId)).1) ∧
        ∀ d : ResetCall, d.Tracked s → d.Tracked (s.advance store (.acquiring userId)).1 ∧
          ∀ c' ∈ (s.advance store (.acquiring userId)).2, d.Apart c' := by
  refine ⟨fun r hr => Nat.lt_succ_of_lt (hs r hr), fun c' hc' => ?_, fun d hd => ⟨?_, ?_⟩⟩
  · obtain rfl := Option.some.inj hc'
    refine ⟨fun m hm => ?_, fun m hm r hr heq => ?_, fun m hm => (by cases hm), fun now hnow => ?_⟩
    · obtain rfl := Option.some.inj hm
      exact Nat.lt_succ_self s.minted
    · obtain rfl := Option.some.inj hm
      exact absurd heq (hs r hr).ne
    · exact (Option.some.inj hnow).ge
  · exact ⟨fun m hm => Nat.lt_succ_of_lt (hd.minted m hm), hd.own, hd.current, hd.past⟩
  · rintro c' hc' m hm n hn
    obtain rfl := Option.some.inj hc'
    obtain rfl := Option.some.inj hn
    exact (hd.minted m hm).ne

/-- A step keeps every call tracked and apart from the others. -/
theorem tracked_advance (hs : s.RowMinted) (hc : c.Tracked s) :
    (s.advance store c).1.RowMinted ∧
      (∀ c' ∈ (s.advance store c).2, c'.Tracked (s.advance store c).1) ∧
        ∀ d : ResetCall, d.Tracked s → d.Apart c →
          d.Tracked (s.advance store c).1 ∧ ∀ c' ∈ (s.advance store c).2, d.Apart c' := by
  cases c with
  | acquiring userId =>
    obtain ⟨h, h', hd⟩ := @tracked_acquiring store s hs userId
    exact ⟨h, h', fun d hd' _ => hd d hd'⟩
  | inserting now l =>
    cases hrow : s.row with
    | none =>
      simp only [advance, hrow, Option.mem_some_iff, forall_eq']
      exact tracked_written hc rfl (by simp [hrow])
    | some r =>
      simp only [advance, hrow, Option.mem_some_iff, forall_eq']
      exact ⟨hs, ⟨hc.minted, hc.own, fun m hm => (by cases hm), hc.past⟩,
        fun d hd hdc => ⟨hd, hdc⟩⟩
  | takingOver now l =>
    cases hrow : s.row with
    | none =>
      simp only [advance, hrow, Option.not_mem_none, false_imp_iff, implies_true, and_true]
      exact ⟨hs, trivial, fun d hd _ => hd⟩
    | some r =>
      by_cases hr : r.StaleAt now
      · simp only [advance, hrow, if_pos hr, Option.mem_some_iff, forall_eq']
        have hstale : r.StaleAt s.clock := hr.mono (hc.past now rfl)
        exact tracked_written hc rfl fun r' hr' => Option.some.inj (hrow.symm.trans hr') ▸ hstale
      · simp only [advance, hrow, if_neg hr, Option.not_mem_none, false_imp_iff, implies_true,
          and_true]
        exact ⟨hs, trivial, fun d hd _ => hd⟩
  | returning l =>
    simp only [advance, Option.mem_some_iff, forall_eq']
    exact ⟨hs, ⟨hc.minted, hc.own, hc.current, fun now hnow => (by cases hnow)⟩,
      fun d hd hdc => ⟨hd, hdc⟩⟩
  | holding l =>
    simp only [advance, Option.mem_some_iff, forall_eq']
    exact tracked_released hs hc rfl
  | released l =>
    simp only [advance, Option.mem_some_iff, forall_eq']
    exact tracked_released hs hc rfl
  | elapsing ticks =>
    simp only [advance, Option.not_mem_none, false_imp_iff, implies_true, and_true]
    refine ⟨hs, trivial, fun d hd _ => ⟨hd.minted, hd.own, fun m hm => ?_, fun now hnow => ?_⟩⟩
    · exact (hd.current m hm).imp_right fun h => h.mono (by simp)
    · have := hd.past now hnow
      show now ≤ s.clock + ticks
      omega

/-! ### Interleavings -/

/-- Every call of an interleaving is tracked, and no two have the same token. -/
theorem tracked (store : ℤ → ℤ) (clock : ℤ) (ts : List (Turn ResetRequest)) :
    (∀ c ∈ ((sessions store).interleave ⟨⟨clock, 0, none⟩, []⟩ ts).live,
      c.Tracked ((sessions store).interleave ⟨⟨clock, 0, none⟩, []⟩ ts).shared) ∧
      ((sessions store).interleave ⟨⟨clock, 0, none⟩, []⟩ ts).live.Pairwise ResetCall.Apart := by
  have hstart (r : ResetRequest) :
      ((sessions store).start r).lease = none ∧ ((sessions store).start r).acquired = none ∧
        ((sessions store).start r).readAt = none := by
    cases r <;> exact ⟨rfl, rfl, rfl⟩
  have hall : (sessions store).Respects (fun _ _ => True) ⟨⟨clock, 0, none⟩, []⟩ ts :=
    Sessions.respects_of_forall (fun _ _ => trivial) _ ts
  refine (Sessions.interleave_pairwise (I := RowMinted) (J := fun s c => c.Tracked s)
    ResetCall.Apart.symm (fun s r _ => ?_) (fun r q => ?_)
    (fun s p hs hp _ => tracked_advance hs hp) ts ?_ ?_ ?_ hall).2
  · obtain ⟨hlease, hacquired, hread⟩ := hstart r
    refine ⟨?_, ?_, ?_, ?_⟩
    · simp [hlease]
    · simp [hlease]
    · simp [hacquired]
    · simp [hread]
  · intro l _ m hm
    rw [(hstart r).1] at hm
    cases hm
  · simp [RowMinted]
  · simp
  · exact List.Pairwise.nil

/-- Two fresh leases that are held by tracked calls have one token. -/
theorem not_apart_of_holdsAt (hc : c.Tracked s) (hd : d.Tracked s) (hc' : c.HoldsAt s.clock)
    (hd' : d.HoldsAt s.clock) : ¬c.Apart d := by
  cases c with
  | holding l =>
    cases d with
    | holding m =>
      have hl : s.row = some l := (hc.current l rfl).resolve_right hc'
      have hm : s.row = some m := (hd.current m rfl).resolve_right hd'
      obtain rfl := Option.some.inj (hl.symm.trans hm)
      exact fun h => h l rfl l rfl rfl
    | _ => exact hd'.elim
  | _ => exact hc'.elim

/-- At every moment at most one of the leases that were got and not released is fresh, and a release
by a caller whose lease was taken over leaves the lease of its successor as it is. -/
theorem exclusive (store : ℤ → ℤ) (clock : ℤ) (ts : List (Turn ResetRequest)) :
    let s := (sessions store).interleave ⟨⟨clock, 0, none⟩, []⟩ ts
    (s.live.filter (ResetCall.HoldsAt s.shared.clock)).length ≤ 1 ∧
      ∀ l, ResetCall.holding l ∈ s.live ∨ ResetCall.released l ∈ s.live →
        ∀ r, s.shared.row = some r → r ≠ l → s.shared.releaseResetLock l.leaseToken = s.shared := by
  intro s
  obtain ⟨htracked, hapart⟩ := tracked store clock ts
  refine ⟨?_, fun l hl r hrow hne => ?_⟩
  · refine Sessions.length_filter_le_one hapart fun c hc d hd hc' hd' => ?_
    exact not_apart_of_holdsAt (htracked c hc) (htracked d hd) hc' hd'
  · have hown : r.leaseToken = l.leaseToken → r = l := by
      rcases hl with hl | hl
      · exact (htracked _ hl).own l rfl r hrow
      · exact (htracked _ hl).own l rfl r hrow
    exact releaseResetLock_row_of_ne hrow fun heq => hne (hown heq)

end ResetLock

end Pfv
