import Pfv.Auth.Steps

/-!
# A revoked session stays revoked

A logout deletes the family of its session first, and that is final. A token is taken into a family
only by a rotation of a token that is in it, or by the login that opens the session; and every check
of a token ends with the family. So from the first round on no key of the session is written and no
request gets past its last check, in whatever order the steps run, whether or not the second round
ever comes.

## Main definitions

* `AuthPhase.Passed`: a request for a session is past its last check.
* `AuthStore.Reissues`: a login issues the id of a session anew.

## Main results

* `RedisStore.effect_revoked`: no step writes a key of a revoked session.
* `AuthStore.not_passed_of_revoked`: no request gets past its last check on a revoked session.
* `AuthStore.revocation_final`: both, in every run after a first round.
-/

namespace Pfv

/-- A request for a session is past its last check on Redis: it succeeds, unless it was a `/verify`
that finds the session too old. -/
def AuthPhase.Passed (sid : ℕ) : AuthPhase → Prop
  | .validated x _ => x.endpoint = .verify ∧ x.token.sid = sid
  | .minting x _ _ => x.token.sid = sid
  | .answered (.refreshed _ token) => token.sid = sid
  | .answered (.verified access) => access.sid = sid
  | _ => False

/-- The token that a login is about to store. -/
def AuthPhase.toIssue : AuthPhase → Option RefreshToken
  | .issuing _ token => some token
  | _ => none

namespace RedisStore

variable {cfg : AuthSettings} {r : RedisStore} {sid : ℕ} {p : AuthPhase}

theorem members_of_revoked (h : r.family sid = none) : r.members sid = ∅ := by
  simp [members, h, liveAt]

theorem not_exists_of_revoked (h : r.family sid = none) : ¬r.sessionFamilyExists sid := by
  simp [sessionFamilyExists, h, liveAt]

theorem rotateResult_of_revoked (h : r.family sid = none) (oldJti newJti : ℕ) :
    r.rotateResult oldJti newJti sid = .sessionRevoked := by
  simp [rotateResult, members_of_revoked h]

/-- The keys of a session are those of an earlier store, and its family is gone. -/
structure Revoked (r₀ : RedisStore) (sid : ℕ) (r : RedisStore) : Prop where
  family : r.family sid = none
  primary : ∀ jti e, r.primary jti = some e → e.value.sid = sid → r₀.primary jti = some e
  grace : ∀ jti e, r.grace jti = some e → e.value.sid = sid → r₀.grace jti = some e

theorem revoked_roundA (r : RedisStore) (sid : ℕ) : Revoked r sid (r.roundA sid) where
  family := by
    show Function.update r.family sid none sid = none
    rw [Function.update_self]
  primary _ _ he _ := he
  grace _ _ he _ := he

theorem addMember_of_ne {sid' : ℕ} (h : r.family sid = none) (hne : sid' ≠ sid) (jti : ℕ) :
    r.addMember cfg sid' jti sid = none := by
  rw [addMember, Function.update_of_ne hne.symm, h]

/-- A key that is not of the session does not touch its keys. -/
theorem update_of_ne {α : Type} {f : ℕ → Option (Entry α)} {g : α → ℕ} {jti jti' : ℕ} {a : α}
    {deadline : ℤ} {e : Entry α} (hne : g a ≠ sid)
    (h : Function.update f jti (some ⟨a, deadline⟩) jti' = some e) (he : g e.value = sid) :
    f jti' = some e := by
  by_cases hj : jti' = jti
  · subst hj
    rw [Function.update_self] at h
    obtain rfl := Option.some.inj h
    exact absurd he hne
  · rwa [Function.update_of_ne hj] at h

theorem update_none {α : Type} {f : ℕ → Option (Entry α)} {jti jti' : ℕ} {e : Entry α}
    (h : Function.update f jti none jti' = some e) : f jti' = some e := by
  by_cases hj : jti' = jti
  · subst hj
    rw [Function.update_self] at h
    cases h
  · rwa [Function.update_of_ne hj] at h

/-- No step writes a key of a revoked session, unless a login issues its id anew. -/
theorem effect_revoked {r₀ : RedisStore} (hr : Revoked r₀ sid r)
    (hp : ¬∃ token ∈ p.toIssue, token.sid = sid) :
    Revoked r₀ sid (r.effect cfg p) := by
  cases p with
  | issuing access token =>
    have hne : token.binding.sid ≠ sid := fun hsid => hp ⟨token, rfl, hsid⟩
    exact ⟨addMember_of_ne hr.family hne _,
      fun jti e he hsid => hr.primary jti e (update_of_ne hne he hsid) hsid, hr.grace⟩
  | rotating x access new retryJti =>
    by_cases hsid : x.token.sid = sid
    · have hresult : r.rotateResult x.token.jti new.jti x.token.binding.sid ≠ .ok := by
        show r.rotateResult x.token.jti new.jti x.token.sid ≠ .ok
        rw [hsid, rotateResult_of_revoked hr.family]
        decide
      simp only [effect, rotateSession, if_neg hresult]
      exact hr
    · have hne : x.token.binding.sid ≠ sid := hsid
      simp only [effect, rotateSession]
      split_ifs
      · exact ⟨addMember_of_ne hr.family hne _,
          fun jti e he hsid => hr.primary jti e (update_of_ne hne (update_none he) hsid) hsid,
          fun jti e he hsid =>
            hr.grace jti e (update_of_ne (g := fun g : GraceRow => g.sid) hne he hsid) hsid⟩
      · exact hr
  | revoking sid' =>
    refine ⟨?_, hr.primary, hr.grace⟩
    show Function.update r.family sid' none sid = none
    by_cases hsid : sid = sid'
    · rw [hsid, Function.update_self]
    · rw [Function.update_of_ne hsid, hr.family]
  | cleaning jtis =>
    refine ⟨hr.family, fun jti e he => ?_, fun jti e he => ?_⟩
    · by_cases hjti : jti ∈ jtis
      · simp [effect, roundB, hjti] at he
      · exact hr.primary jti e (by simpa [effect, roundB, hjti] using he)
    · by_cases hjti : jti ∈ jtis
      · simp [effect, roundB, hjti] at he
      · exact hr.grace jti e (by simpa [effect, roundB, hjti] using he)
  | _ => exact ⟨hr.family, hr.primary, hr.grace⟩

end RedisStore

namespace AuthStore

open RedisStore

variable {cfg : AuthSettings} {s : AuthStore} {sid : ℕ} {p : AuthPhase} {c : Call}

/-- The command of a request on a revoked session does not lead past its last check. -/
theorem not_passed_step (h : s.family sid = none) (hp : p.OnRedis) (hformed : p.Formed) :
    ¬(s.step cfg p).2.Passed sid := by
  cases p with
  | probing x =>
    simp only [step]
    split
    · split_ifs <;> exact id
    · exact id
  | checkingMember x =>
    simp only [step]
    split_ifs with hmember
    · rintro ⟨-, rfl⟩
      simp [members_of_revoked h] at hmember
    · exact id
  | probingGrace x =>
    simp only [step]
    split <;> exact id
  | checkingFamily x row =>
    simp only [step]
    split_ifs with hfamily
    · rintro ⟨-, rfl⟩
      exact not_exists_of_revoked h hfamily.1
    · exact id
  | rotating x access new retryJti =>
    simp only [step]
    split
    · next hok =>
      intro hsid
      have hsame : x.token.sid = new.sid := congrArg SessionRow.sid hformed.symm
      rw [hsame.trans hsid, rotateResult_of_revoked h] at hok
      cases hok
    all_goals exact id
  | recheckingFamily x access row =>
    cases row with
    | none => exact id
    | some row =>
      simp only [step]
      split_ifs <;> exact id
  | catchingUp x access successor =>
    simp only [step]
    split_ifs <;> exact id
  | catchingUpMember x access successor =>
    simp only [step]
    split_ifs with hmember
    · rintro rfl
      simp [members_of_revoked h] at hmember
    · exact id
  | revoking sid' =>
    simp only [step]
    split_ifs <;> exact id
  | issuing access token => exact id
  | reprobingGrace x access => exact id
  | cleaning jtis => exact id
  | _ => exact hp.elim

theorem not_passed_of_onRedis (hp : p.OnRedis) : ¬p.Passed sid := by
  cases p <;> first | exact id | exact hp.elim

theorem not_passed_of_revoked (h : s.family sid = none) (hc : c.phase.OnRedis)
    (hformed : c.phase.Formed) : ∀ c' ∈ (s.advance cfg c).2, ¬c'.phase.Passed sid := by
  intro c' hc'
  rcases advance_phase hc' with h' | ⟨-, h' | h'⟩
  · rw [h']
    exact not_passed_step h hc hformed
  · rw [h']
    exact not_passed_of_onRedis hc
  · rw [h']
    cases hphase : c.phase <;> exact id

/-- The next step of a request is the login that issues the id of the session. -/
def Reissues (sid : ℕ) (c : Call) : Prop :=
  ∃ token ∈ c.phase.toIssue, token.sid = sid

instance (sid : ℕ) : DecidablePred (Reissues sid) :=
  fun c => inferInstanceAs (Decidable (∃ token ∈ c.phase.toIssue, token.sid = sid))

/-- From the first round of a logout on, in every run in which no login gets the id of the session
again: its family stays gone, no primary or grace key of it is written, and no command of a request
leads past the last check of a request for the session. -/
theorem revocation_final (cfg : AuthSettings) (sid : ℕ) (s : AuthStore)
    (ts ts' : List (Turn (AuthRequest × List Reply))) (k : ℕ) (c : Call)
    (hc : ((sessions cfg).interleave ⟨s, []⟩ ts).live[k]? = some c)
    (hround : c.phase = .revoking sid)
    (hts' : (sessions cfg).Respects (fun _ c => ¬Reissues sid c)
      ((sessions cfg).interleave ⟨s, []⟩ (ts ++ [.advance k])) ts') :
    let before := ((sessions cfg).interleave ⟨s, []⟩ ts).shared
    let after := (sessions cfg).interleave ⟨s, []⟩ (ts ++ .advance k :: ts')
    after.shared.family sid = none ∧
      (∀ jti e, after.shared.primary jti = some e → e.value.sid = sid →
        before.primary jti = some e) ∧
      (∀ jti e, after.shared.grace jti = some e → e.value.sid = sid →
        before.grace jti = some e) ∧
      ∀ c ∈ after.live, c.phase.OnRedis →
        ∀ c' ∈ (after.shared.advance cfg c).2, ¬c'.phase.Passed sid := by
  intro before after
  have hafter : after = (sessions cfg).interleave
      ((sessions cfg).interleave ⟨s, []⟩ (ts ++ [.advance k])) ts' := by
    rw [← Sessions.interleave_append, List.append_assoc]
    rfl
  have hstart : Revoked before.toRedisStore sid
      ((sessions cfg).interleave ⟨s, []⟩ (ts ++ [.advance k])).shared.toRedisStore := by
    rw [Sessions.interleave_append, Sessions.interleave_cons, Sessions.interleave_nil]
    have hshared : ((sessions cfg).turn ((sessions cfg).interleave ⟨s, []⟩ ts)
        (.advance k)).shared = (before.advance cfg c).1 := by
      simp only [Sessions.turn, hc]
      rfl
    rw [hshared, advance_toRedisStore, hround]
    exact revoked_roundA before.toRedisStore sid
  have hrevoked : Revoked before.toRedisStore sid after.shared.toRedisStore := by
    rw [hafter]
    refine Sessions.shared_invariant
      (I := fun s : AuthStore => Revoked before.toRedisStore sid s.toRedisStore)
      (fun s c hs hok => ?_) ts' hstart hts'
    show Revoked _ _ (s.advance cfg c).1.toRedisStore
    rw [advance_toRedisStore]
    exact effect_revoked hs hok
  refine ⟨hrevoked.family, hrevoked.primary, hrevoked.grace, fun c' hc' hredis => ?_⟩
  exact not_passed_of_revoked hrevoked.family hredis (formed_interleave cfg s _ c' hc')

/-! ### A logout during a refresh -/

def sampleSettings : AuthSettings where
  sessionTtl := ofSeconds 86400
  accessTtl := ofSeconds 900
  store := id

/-- A store with one user and no session. -/
def sampleAuth : AuthStore where
  clock := ofSeconds 1000
  users := fun id => if id = 1 then some {} else none

/-- The token of a login of the user at that moment. -/
def sampleToken (jti sid : ℕ) : RefreshToken where
  sub := 1
  jti := jti
  sid := sid
  sessionCreatedAt := ofSeconds 1000
  iat := 1000
  exp := 87400

/-- A login; then a refresh has validated its token when a logout starts. -/
def sampleRefreshing : List (Turn (AuthRequest × List Reply)) :=
  [.start (.login 1 10 20, []), .advance 0, .advance 0,
    .start (.refresh (sampleToken 10 20) 11 12, []),
    .advance 1, .advance 1, .advance 1, .advance 1, .start (.logout 20, [])]

/-- The rotation comes after the first round of the logout. -/
theorem revocation_final_of_sampleRefreshing :
    let before := ((sessions sampleSettings).interleave ⟨sampleAuth, []⟩ sampleRefreshing).shared
    let after := (sessions sampleSettings).interleave ⟨sampleAuth, []⟩
      (sampleRefreshing ++ .advance 2 :: [.advance 1])
    after.shared.family 20 = none ∧
      (∀ jti e, after.shared.primary jti = some e → e.value.sid = 20 →
        before.primary jti = some e) ∧
      (∀ jti e, after.shared.grace jti = some e → e.value.sid = 20 →
        before.grace jti = some e) ∧
      ∀ c ∈ after.live, c.phase.OnRedis →
        ∀ c' ∈ (after.shared.advance sampleSettings c).2, ¬c'.phase.Passed 20 :=
  revocation_final sampleSettings 20 sampleAuth sampleRefreshing [.advance 1] 2 ⟨.revoking 20, []⟩
    (by rfl) rfl (by decide)

end AuthStore

end Pfv
