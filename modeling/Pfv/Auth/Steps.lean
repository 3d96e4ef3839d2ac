import Pfv.Services.AuthSessions

/-!
# Steps of a session request

What a step of any request does to Redis is what its phase says, whatever becomes of the reply; and
the phase after a step is the one that the reply leads to, or the same one when the command is sent
again, or an answer when the request gives up. The token that a rotation has minted is for the user
and the session of the token presented.

## Main definitions

* `AuthPhase.presented`: the token that a request has presented.
* `AuthPhase.Formed`: what a request that has minted a token carries.
* `AuthStore.mints`: the token that a step may mint.

## Main results

* `AuthStore.advance_toRedisStore`: what a step does to Redis.
* `AuthStore.advance_phase`: where a step leads.
* `AuthStore.formed_interleave`: every request of an interleaving is formed.
* `AuthStore.presented_step`: a request keeps the token that it has presented.
* `AuthStore.step_issued`: what a step mints.
-/

namespace Pfv

/-- The token that a rotation is about to store is for the user and the session of the token
presented. -/
def AuthPhase.Formed : AuthPhase → Prop
  | .rotating x _ new _ => new.binding = x.token.binding
  | _ => True

/-- The token that a request has presented, from its first command on. -/
def AuthPhase.presented : AuthPhase → Option Presented
  | .probing x | .checkingMember x | .probingGrace x | .checkingFamily x _ | .validated x _
  | .rotating x _ _ _ | .reprobingGrace x _ | .recheckingFamily x _ _ | .catchingUp x _ _
  | .catchingUpMember x _ _ | .minting x _ _ => some x
  | _ => none

namespace AuthStore

variable {cfg : AuthSettings} {s : AuthStore} {c : Call} {p : AuthPhase}

@[simp] theorem toRedisStore_run (s : AuthStore) (p : AuthPhase) :
    (s.run cfg p).toRedisStore = s.toRedisStore.effect cfg p := rfl

theorem goOn_toRedisStore (s : AuthStore) (x : Presented) (successor : Option ℕ) :
    (s.goOn cfg x successor).1.toRedisStore = s.toRedisStore := by
  obtain ⟨endpoint, token, user⟩ := x
  cases endpoint with
  | verify => rfl
  | refresh newJti retryJti => cases successor <;> rfl

theorem step_toRedisStore (s : AuthStore) (p : AuthPhase) :
    (s.step cfg p).1.toRedisStore = s.toRedisStore.effect cfg p := by
  cases p with
  | opening userId jti sid =>
    simp only [step]
    split
    · split_ifs <;> rfl
    · rfl
  | reading endpoint token =>
    simp only [step]
    split_ifs
    · split
      · split_ifs <;> rfl
      · rfl
    · rfl
  | validated x successor =>
    simp only [step]
    split_ifs
    · rfl
    · exact goOn_toRedisStore s x successor
  | rotating x access new retryJti =>
    simp only [step]
    split <;> rfl
  | recheckingFamily x access row => cases row <;> rfl
  | _ => rfl

/-- What a step does to Redis does not depend on the reply. -/
theorem advance_toRedisStore (s : AuthStore) (c : Call) :
    (s.advance cfg c).1.toRedisStore = s.toRedisStore.effect cfg c.phase := by
  unfold advance
  split_ifs
  · split
    · rfl
    · rfl
    · exact step_toRedisStore s c.phase
    · exact step_toRedisStore s c.phase
  · exact step_toRedisStore s c.phase

/-- A step runs to its reply, or the reply is lost and the command is sent again or the request
gives up. -/
theorem advance_cases (s : AuthStore) (c : Call) :
    (∃ replies, s.advance cfg c =
      ((s.step cfg c.phase).1, some ⟨(s.step cfg c.phase).2, replies⟩)) ∨
    c.phase.OnRedis ∧ ∃ p replies, s.advance cfg c = (s.run cfg c.phase, some ⟨p, replies⟩) ∧
      (p = c.phase ∨ p = .answered c.phase.givesUp) := by
  unfold advance
  split_ifs with hredis
  · split
    · exact .inr ⟨hredis, _, _, rfl, .inl rfl⟩
    · exact .inr ⟨hredis, _, _, rfl, .inr rfl⟩
    · exact .inl ⟨_, rfl⟩
    · exact .inl ⟨_, rfl⟩
  · exact .inl ⟨_, rfl⟩

/-- Where a step leads: to where the reply leads, or nowhere, or to an answer. -/
theorem advance_phase {c' : Call} (h : c' ∈ (s.advance cfg c).2) :
    c'.phase = (s.step cfg c.phase).2 ∨
      c.phase.OnRedis ∧ (c'.phase = c.phase ∨ c'.phase = .answered c.phase.givesUp) := by
  rcases advance_cases s c with ⟨replies, heq⟩ | ⟨hredis, p, replies, heq, hp⟩
  · rw [heq] at h
    exact .inl (by rw [← Option.some.inj h])
  · rw [heq] at h
    obtain rfl := Option.some.inj h
    exact .inr ⟨hredis, hp⟩

theorem formed_goOn (s : AuthStore) (x : Presented) (successor : Option ℕ) :
    (s.goOn cfg x successor).2.Formed := by
  obtain ⟨endpoint, token, user⟩ := x
  cases endpoint with
  | verify => trivial
  | refresh newJti retryJti =>
    cases successor with
    | none => rfl
    | some successor => trivial

theorem formed_step (s : AuthStore) (p : AuthPhase) : (s.step cfg p).2.Formed := by
  cases p with
  | opening userId jti sid =>
    simp only [step]
    split
    · split_ifs <;> trivial
    · trivial
  | reading endpoint token =>
    simp only [step]
    split_ifs
    · split
      · split_ifs <;> trivial
      · trivial
    · trivial
  | probing x =>
    simp only [step]
    split
    · split_ifs <;> trivial
    · trivial
  | probingGrace x =>
    simp only [step]
    split <;> trivial
  | validated x successor =>
    simp only [step]
    split_ifs
    · trivial
    · exact formed_goOn s x successor
  | rotating x access new retryJti =>
    simp only [step]
    split
    · trivial
    · trivial
    · trivial
    · rfl
    · trivial
  | recheckingFamily x access row =>
    cases row with
    | none => trivial
    | some row =>
      simp only [step]
      split_ifs <;> trivial
  | checkingMember x =>
    simp only [step]
    split_ifs <;> trivial
  | checkingFamily x row =>
    simp only [step]
    split_ifs <;> trivial
  | catchingUp x access successor =>
    simp only [step]
    split_ifs <;> trivial
  | catchingUpMember x access successor =>
    simp only [step]
    split_ifs <;> trivial
  | revoking sid =>
    simp only [step]
    split_ifs <;> trivial
  | _ => trivial

theorem formed_advance {c' : Call} (hc : c.phase.Formed) (h : c' ∈ (s.advance cfg c).2) :
    c'.phase.Formed := by
  rcases advance_phase h with h | ⟨-, h | h⟩
  · exact h ▸ formed_step s c.phase
  · exact h ▸ hc
  · exact h ▸ trivial

/-- Every request of an interleaving is formed. -/
theorem formed_interleave (cfg : AuthSettings) (s : AuthStore)
    (ts : List (Turn (AuthRequest × List Reply))) :
    ∀ c ∈ ((sessions cfg).interleave ⟨s, []⟩ ts).live, c.phase.Formed := by
  have hall : (sessions cfg).Respects (fun _ _ => True) ⟨s, []⟩ ts :=
    Sessions.respects_of_forall (fun _ _ => trivial) _ ts
  refine (Sessions.interleave_local (I := fun _ => True) (J := fun _ c => c.phase.Formed)
    (fun s r _ => ?_) (fun s c _ hc _ => ?_) ts trivial (by simp) hall).2
  · obtain ⟨r, replies⟩ := r
    cases r <;> trivial
  · exact ⟨trivial, fun c' hc' => formed_advance hc hc', fun q hq => hq⟩

/-- A token that a step shows was presented before, or has just been read. -/
theorem presented_step : ∀ x ∈ (s.step cfg p).2.presented,
    x ∈ p.presented ∨ p = .reading x.endpoint x.token ∧ (s.step cfg p).2 = .probing x := by
  intro x hx
  cases p with
  | reading endpoint token =>
    simp only [step] at hx ⊢
    split_ifs at hx ⊢
    · split at hx
      · split_ifs at hx ⊢
        · cases hx
        · cases hx
          exact .inr ⟨rfl, rfl⟩
        · cases hx
      · cases hx
    · cases hx
  | opening userId jti sid =>
    simp only [step] at hx
    split at hx
    · split_ifs at hx <;> cases hx
    · cases hx
  | probing x' =>
    simp only [step] at hx
    split at hx
    · split_ifs at hx
      · exact .inl hx
      · cases hx
    · exact .inl hx
  | probingGrace x' =>
    simp only [step] at hx
    split at hx
    · exact .inl hx
    · cases hx
  | validated x' successor =>
    obtain ⟨endpoint, token, user⟩ := x'
    simp only [step] at hx
    split_ifs at hx
    · cases hx
    · cases endpoint with
      | verify => cases hx
      | refresh newJti retryJti => cases successor <;> exact .inl hx
  | rotating x' access new retryJti =>
    simp only [step] at hx
    split at hx
    · cases hx
    · cases hx
    · exact .inl hx
    · exact .inl hx
    · cases hx
  | reprobingGrace x' access => exact .inl hx
  | recheckingFamily x' access g =>
    cases g with
    | none => cases hx
    | some g =>
      simp only [step] at hx
      split_ifs at hx
      · exact .inl hx
      · cases hx
  | checkingMember x' | checkingFamily x' g | catchingUp x' access successor
  | catchingUpMember x' access successor =>
    simp only [step] at hx
    split_ifs at hx
    · exact .inl hx
    · cases hx
  | revoking sid =>
    simp only [step] at hx
    split_ifs at hx <;> cases hx
  | _ => cases hx

/-! ### Minting -/

/-- The token that the next step of a request may mint. -/
def mints (cfg : AuthSettings) (s : AuthStore) : AuthPhase → Option RefreshToken
  | .opening userId jti sid => some (s.mintRefresh cfg ⟨userId, sid⟩ jti s.clock)
  | .validated ⟨.refresh newJti _, token, _⟩ none =>
      some (s.mintRefresh cfg token.binding newJti token.sessionCreatedAt)
  | .rotating x _ _ (some retryJti) =>
      some (s.mintRefresh cfg x.token.binding retryJti x.token.sessionCreatedAt)
  | .minting x _ successor =>
      some (s.mintRefresh cfg x.token.binding successor x.token.sessionCreatedAt)
  | _ => none

theorem step_issued (s : AuthStore) (p : AuthPhase) :
    (s.step cfg p).1.issued = s.issued ∨
      ∃ token ∈ s.mints cfg p, (s.step cfg p).1.issued = s.issued ++ [token] := by
  cases p with
  | opening userId jti sid =>
    simp only [step]
    split
    · split_ifs
      · exact .inr ⟨_, rfl, rfl⟩
      · exact .inl rfl
    · exact .inl rfl
  | reading endpoint token =>
    simp only [step]
    split_ifs
    · split
      · split_ifs <;> exact .inl rfl
      · exact .inl rfl
    · exact .inl rfl
  | validated x successor =>
    obtain ⟨endpoint, token, user⟩ := x
    simp only [step]
    split_ifs
    · exact .inl rfl
    · cases endpoint with
      | verify => exact .inl rfl
      | refresh newJti retryJti =>
        cases successor with
        | none => exact .inr ⟨_, rfl, rfl⟩
        | some successor => exact .inl rfl
  | rotating x access new retryJti =>
    simp only [step]
    split
    · exact .inl rfl
    · exact .inl rfl
    · exact .inl rfl
    · exact .inr ⟨_, rfl, rfl⟩
    · exact .inl rfl
  | recheckingFamily x access row => cases row <;> exact .inl rfl
  | minting x access successor => exact .inr ⟨_, rfl, rfl⟩
  | _ => exact .inl rfl

theorem advance_issued (s : AuthStore) (c : Call) :
    (s.advance cfg c).1.issued = s.issued ∨
      ∃ token ∈ s.mints cfg c.phase, (s.advance cfg c).1.issued = s.issued ++ [token] := by
  rcases @advance_cases cfg s c with ⟨replies, heq⟩ | ⟨-, p, replies, heq, -⟩
  · rw [heq]
    exact step_issued s c.phase
  · rw [heq]
    exact .inl rfl

theorem issued_subset_advance (s : AuthStore) (c : Call) :
    s.issued ⊆ (s.advance cfg c).1.issued := by
  rcases @advance_issued cfg s c with h | ⟨token, -, h⟩
  · exact h.symm ▸ List.Subset.refl _
  · exact h.symm ▸ List.subset_append_left _ _

end AuthStore

end Pfv
