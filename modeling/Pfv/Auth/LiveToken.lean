import Pfv.Auth.Revocation

/-!
# One live token per session

A rotation deletes the primary key of the token that it replaces in the script that writes the new
one, so the family of a session has one token with a primary key at most, after every command of
every request. The token that a rotation hands out is that one. The token that a catch-up hands out
was, when its primary key was looked up; the membership in the family is another command, and the
token may be rotated away between the two.

The random ids are new: this is what the runs are required to respect.

## Main definitions

* `RedisStore.LiveIn`: a token of a family that has its primary key.
* `AuthStore.FreshIds`: the ids that a step draws are new.
* `AuthStore.SuccessorLive`: a catch-up finds the primary key that it has looked up still there.
* `AuthPhase.emits`: the token that a request is past its last check to hand out.

## Main results

* `AuthStore.liveIn_unique`: a family has at most one live token.
* `AuthStore.one_live_token`: and the token that a request gets to hand out is live at its last
  command exactly when the catch-up still finds its successor.
* `AuthStore.not_one_live_token_of_sampleRace`: a token that is rotated away between the look-up and
  the membership.
-/

namespace Pfv

/-- The token that the next command of a request may store. -/
def AuthPhase.toStore : AuthPhase → Option RefreshToken
  | .issuing _ token => some token
  | .rotating _ _ new _ => some new
  | _ => none

/-- The random id with which the next step of a request may mint a token. -/
def AuthPhase.draws : AuthPhase → Option ℕ
  | .opening _ jti _ => some jti
  | .validated ⟨.refresh newJti _, _, _⟩ none => some newJti
  | .rotating _ _ _ (some retryJti) => some retryJti
  | _ => none

/-- The id and the binding of the token that a request past its last check hands out. -/
def AuthPhase.emits : AuthPhase → Option (ℕ × SessionRow)
  | .minting x _ successor => some (successor, x.token.binding)
  | .answered (.refreshed _ token) => some (token.jti, token.binding)
  | _ => none

namespace RedisStore

variable {cfg : AuthSettings} {r : RedisStore} {sid jti : ℕ}

/-- The tokens of a family, whether or not it has reached its deadline. -/
def stored (r : RedisStore) (sid : ℕ) : Finset ℕ := ((r.family sid).map Entry.value).getD ∅

/-- A token of the family of a session has its primary key. -/
def LiveIn (r : RedisStore) (sid jti : ℕ) : Prop :=
  jti ∈ r.members sid ∧ r.sessionValidate jti ≠ none

theorem mem_stored_of_mem_members (h : jti ∈ r.members sid) : jti ∈ r.stored sid := by
  unfold members at h
  unfold stored
  cases hf : r.family sid with
  | none => simp [hf, liveAt] at h
  | some e =>
    by_cases hlive : r.clock < e.expiresAt
    · simpa [hf, liveAt, hlive] using h
    · simp [hf, liveAt, hlive] at h

theorem primary_ne_none (h : r.sessionValidate jti ≠ none) : r.primary jti ≠ none := by
  intro hnone
  simp [sessionValidate, hnone, liveAt] at h

/-- At most one token of every family has a primary key. -/
def OnePrimary (r : RedisStore) : Prop :=
  ∀ sid, ∀ jti ∈ r.stored sid, ∀ jti' ∈ r.stored sid,
    r.primary jti ≠ none → r.primary jti' ≠ none → jti = jti'

theorem LiveIn.unique (hr : r.OnePrimary) {jti' : ℕ} (h : r.LiveIn sid jti)
    (h' : r.LiveIn sid jti') : jti = jti' :=
  hr sid jti (mem_stored_of_mem_members h.1) jti' (mem_stored_of_mem_members h'.1)
    (primary_ne_none h.2) (primary_ne_none h'.2)

/-- The tokens of a family after one was added to the family of a session. -/
theorem mem_stored_add {r' : RedisStore} {new sid' : ℕ} (hr' : r'.family = r.addMember cfg sid new)
    (h : jti ∈ r'.stored sid') : jti ∈ r.stored sid' ∨ sid' = sid ∧ jti = new := by
  unfold stored at h
  rw [hr', addMember] at h
  by_cases hsid : sid' = sid
  · subst hsid
    simp only [Function.update_self, Option.map_some, Option.getD_some, Finset.mem_insert] at h
    rcases h with h | h
    · exact .inr ⟨rfl, h⟩
    · exact .inl (mem_stored_of_mem_members h)
  · rw [Function.update_of_ne hsid] at h
    exact .inl h

theorem rotateResult_eq_ok {oldJti newJti : ℕ} :
    r.rotateResult oldJti newJti sid = .ok ↔ oldJti ∈ r.members sid ∧
      r.sessionValidate oldJti ≠ none ∧ r.sessionValidate newJti = none := by
  unfold rotateResult
  split_ifs <;> simp_all

/-- A rotation leaves one primary key in every family when the new id is in no other. -/
theorem onePrimary_rotated (hr : r.OnePrimary) {oldJti newJti : ℕ} {row : SessionRow}
    (hok : r.rotateResult oldJti newJti row.sid = .ok)
    (hnew : ∀ sid, newJti ∈ r.stored sid → sid = row.sid) :
    (r.rotated cfg oldJti newJti row).OnePrimary := by
  obtain ⟨hmember, hlive, -⟩ := rotateResult_eq_ok.mp hok
  have hold : ∀ jti ∈ r.stored row.sid, r.primary jti ≠ none → jti = oldJti := fun jti hjti hp =>
    hr row.sid jti hjti oldJti (mem_stored_of_mem_members hmember) hp (primary_ne_none hlive)
  -- a token that has a primary key after the rotation is the new one, or had one and is not the old
  have hcases : ∀ jti, (r.rotated cfg oldJti newJti row).primary jti ≠ none →
      jti ≠ oldJti ∧ (jti = newJti ∨ r.primary jti ≠ none) := by
    intro jti hp
    have hne : jti ≠ oldJti := by
      rintro rfl
      exact hp (Function.update_self ..)
    refine ⟨hne, ?_⟩
    by_cases hjti : jti = newJti
    · exact .inl hjti
    · refine .inr ?_
      change Function.update (Function.update r.primary newJti _) oldJti none jti ≠ none at hp
      rwa [Function.update_of_ne hne, Function.update_of_ne hjti] at hp
  have hsession : ∀ jti ∈ (r.rotated cfg oldJti newJti row).stored row.sid,
      (r.rotated cfg oldJti newJti row).primary jti ≠ none → jti = newJti := by
    intro jti hjti hp
    obtain ⟨hne, hjti' | hp'⟩ := hcases jti hp
    · exact hjti'
    · rcases mem_stored_add rfl hjti with hjti | ⟨-, rfl⟩
      · exact absurd (hold jti hjti hp') hne
      · rfl
  intro sid jti hjti jti' hjti' hp hp'
  by_cases hsid : sid = row.sid
  · subst hsid
    rw [hsession jti hjti hp, hsession jti' hjti' hp']
  · have hother : ∀ jti ∈ (r.rotated cfg oldJti newJti row).stored sid,
        (r.rotated cfg oldJti newJti row).primary jti ≠ none →
          jti ∈ r.stored sid ∧ r.primary jti ≠ none := by
      intro jti hjti hp
      have hmem : jti ∈ r.stored sid :=
        (mem_stored_add rfl hjti).resolve_right fun h => hsid h.1
      exact ⟨hmem, (hcases jti hp).2.resolve_left fun h => hsid (hnew sid (h ▸ hmem))⟩
    obtain ⟨hmem, hprimary⟩ := hother jti hjti hp
    obtain ⟨hmem', hprimary'⟩ := hother jti' hjti' hp'
    exact hr sid jti hmem jti' hmem' hprimary hprimary'

/-- A login leaves one primary key in every family when its ids are in no other. -/
theorem onePrimary_issue (hr : r.OnePrimary) {row : SessionRow}
    (hjti : ∀ sid, jti ∈ r.stored sid → sid = row.sid)
    (hsid : ∀ j ∈ r.stored row.sid, j = jti) : (r.sessionIssue cfg jti row).OnePrimary := by
  intro sid j hj j' hj' hp hp'
  by_cases hsame : sid = row.sid
  · subst hsame
    have hall : ∀ j ∈ (r.sessionIssue cfg jti row).stored row.sid, j = jti := fun j hj => by
      rcases mem_stored_add rfl hj with hj | ⟨-, rfl⟩
      · exact hsid j hj
      · rfl
    rw [hall j hj, hall j' hj']
  · have hother : ∀ j ∈ (r.sessionIssue cfg jti row).stored sid,
        (r.sessionIssue cfg jti row).primary j ≠ none → j ∈ r.stored sid ∧ r.primary j ≠ none := by
      intro j hj hp
      have hmem : j ∈ r.stored sid := (mem_stored_add rfl hj).resolve_right fun h => hsame h.1
      have hne : j ≠ jti := by
        rintro rfl
        exact hsame (hjti sid hmem)
      change Function.update r.primary jti _ j ≠ none at hp
      rw [Function.update_of_ne hne] at hp
      exact ⟨hmem, hp⟩
    obtain ⟨hmem, hprimary⟩ := hother j hj hp
    obtain ⟨hmem', hprimary'⟩ := hother j' hj' hp'
    exact hr sid j hmem j' hmem' hprimary hprimary'

theorem mem_stored_roundA {sid' : ℕ} (h : jti ∈ (r.roundA sid).stored sid') :
    jti ∈ r.stored sid' := by
  have hfamily : (r.roundA sid).family = Function.update r.family sid none := rfl
  unfold stored at h
  rw [hfamily] at h
  by_cases hsid : sid' = sid
  · subst hsid
    simp at h
  · rwa [Function.update_of_ne hsid] at h

/-- The tokens of a family after a step. -/
theorem mem_stored_effect {p : AuthPhase} (hp : p.Formed)
    (h : jti ∈ (r.effect cfg p).stored sid) :
    jti ∈ r.stored sid ∨ ∃ token ∈ p.toStore, token.jti = jti ∧ token.sid = sid := by
  cases p with
  | issuing access token =>
    rcases mem_stored_add rfl h with h | ⟨rfl, rfl⟩
    · exact .inl h
    · exact .inr ⟨token, rfl, rfl, rfl⟩
  | rotating x access new retryJti =>
    simp only [effect, rotateSession] at h
    split_ifs at h
    · rcases mem_stored_add rfl h with h | ⟨rfl, rfl⟩
      · exact .inl h
      · exact .inr ⟨new, rfl, rfl, congrArg SessionRow.sid hp⟩
    · exact .inl h
  | revoking sid' => exact .inl (mem_stored_roundA h)
  | _ => exact .inl h

/-- A step leaves one primary key in every family when the token that it stores is of a session of
its own, or of the session in which it is rotated. -/
theorem onePrimary_effect {p : AuthPhase} (hr : r.OnePrimary) (hp : p.Formed)
    (hown : ∀ token ∈ p.toStore, ∀ sid, token.jti ∈ r.stored sid → sid = token.sid)
    (hnew : ∀ access token, p = .issuing access token → ∀ jti ∈ r.stored token.sid,
      jti = token.jti) : (r.effect cfg p).OnePrimary := by
  cases p with
  | issuing access token => exact onePrimary_issue hr (hown token rfl) (hnew access token rfl)
  | rotating x access new retryJti =>
    simp only [effect, rotateSession]
    split_ifs with hok
    · have hsid : new.sid = x.token.binding.sid := congrArg SessionRow.sid hp
      exact onePrimary_rotated hr hok fun sid hmem => (hown new rfl sid hmem).trans hsid
    · exact hr
  | revoking sid' =>
    exact fun sid jti hjti jti' hjti' hp hp' =>
      hr sid jti (mem_stored_roundA hjti) jti' (mem_stored_roundA hjti') hp hp'
  | cleaning jtis =>
    have hkept : ∀ jti, (r.roundB jtis).primary jti ≠ none → r.primary jti ≠ none := by
      intro jti hp hnone
      exact hp (by simp [roundB, hnone])
    exact fun sid jti hjti jti' hjti' hp hp' =>
      hr sid jti hjti jti' hjti' (hkept jti hp) (hkept jti' hp')
  | _ => exact hr

/-- A rotation gives the new token a key and takes it into the family. -/
theorem live_of_rotated (hsession : 0 < cfg.sessionTtl) {oldJti newJti : ℕ} {row : SessionRow}
    (hne : newJti ≠ oldJti) :
    (r.rotated cfg oldJti newJti row).sessionValidate newJti = some row ∧
      newJti ∈ (r.rotated cfg oldJti newJti row).members row.sid := by
  have hdeadline : r.clock < r.clock + cfg.sessionTtl := by omega
  constructor
  · show liveAt r.clock (Function.update (Function.update r.primary newJti _) oldJti none newJti) =
      some row
    rw [Function.update_of_ne hne, Function.update_self, liveAt, if_pos hdeadline]
  · show newJti ∈ (liveAt r.clock (r.addMember cfg row.sid newJti row.sid)).getD ∅
    rw [addMember, Function.update_self, liveAt, if_pos hdeadline]
    exact Finset.mem_insert_self newJti _

end RedisStore

namespace AuthStore

open RedisStore

variable {cfg : AuthSettings} {s : AuthStore} {c : Call} {p : AuthPhase}

/-! ### Minting -/

/-- Every token of a family was minted for its session. -/
def FamiliesMinted (s : AuthStore) : Prop :=
  ∀ sid, ∀ jti ∈ s.stored sid, ∃ token ∈ s.issued, token.jti = jti ∧ token.sid = sid

/-- What a request carries was minted: the token that it is about to store, and the successor for
which it is about to mint a token. -/
def Minted (s : AuthStore) : AuthPhase → Prop
  | .issuing _ token => token ∈ s.issued
  | .rotating _ _ new _ => new ∈ s.issued
  | .minting x _ successor => ∃ token ∈ s.issued, token.jti = successor ∧ token.sid = x.token.sid
  | _ => True

theorem Minted.mono {s' : AuthStore} (h : s.Minted p) (hs : s.issued ⊆ s'.issued) :
    s'.Minted p := by
  cases p with
  | issuing access token => exact hs h
  | rotating x access new retryJti => exact hs h
  | minting x access successor => exact h.imp fun token ht => ⟨hs ht.1, ht.2⟩
  | _ => trivial

theorem Minted.of_mem_toStore {token : RefreshToken} (h : s.Minted p) (ht : token ∈ p.toStore) :
    token ∈ s.issued := by
  cases p <;> cases ht <;> exact h

theorem minted_goOn (s : AuthStore) (x : Presented) (successor : Option ℕ) :
    (s.goOn cfg x successor).1.Minted (s.goOn cfg x successor).2 := by
  obtain ⟨endpoint, token, user⟩ := x
  cases endpoint with
  | verify => trivial
  | refresh newJti retryJti =>
    cases successor with
    | none => exact List.mem_append_right _ (List.mem_singleton_self _)
    | some successor => trivial

/-- What a request goes on to carry was minted. -/
theorem minted_step (hs : s.FamiliesMinted) (p : AuthPhase) :
    (s.step cfg p).1.Minted (s.step cfg p).2 := by
  cases p with
  | opening userId jti sid =>
    simp only [step]
    split
    · split_ifs
      · exact List.mem_append_right _ (List.mem_singleton_self _)
      · trivial
    · trivial
  | reading endpoint token =>
    simp only [step]
    split_ifs
    · split
      · split_ifs <;> trivial
      · trivial
    · trivial
  | probing x =>
    simp only [step]
    split
    · split_ifs <;> trivial
    · trivial
  | probingGrace x =>
    simp only [step]
    split <;> trivial
  | validated x successor =>
    simp only [step]
    split_ifs
    · trivial
    · exact minted_goOn s x successor
  | rotating x access new retryJti =>
    simp only [step]
    split
    · trivial
    · trivial
    · trivial
    · exact List.mem_append_right _ (List.mem_singleton_self _)
    · trivial
  | recheckingFamily x access row =>
    cases row with
    | none => trivial
    | some row =>
      simp only [step]
      split_ifs <;> trivial
  | catchingUpMember x access successor =>
    simp only [step]
    split_ifs with hmember
    · exact hs x.token.sid successor (mem_stored_of_mem_members hmember)
    · trivial
  | checkingMember x | checkingFamily x row | catchingUp x access successor | revoking sid =>
    simp only [step]
    split_ifs <;> trivial
  | _ => trivial

/-! ### The invariant -/

/-- The ids that the next step of a request draws are new: no token was minted with the id, and the
session that a login opens has no other token. -/
def FreshIds (s : AuthStore) (c : Call) : Prop :=
  (∀ jti ∈ c.phase.draws, ∀ token ∈ s.issued, token.jti ≠ jti) ∧
    ∀ token ∈ c.phase.toIssue, ∀ jti ∈ s.stored token.sid, jti = token.jti

instance (s : AuthStore) : DecidablePred (FreshIds s) :=
  fun c => inferInstanceAs (Decidable ((∀ jti ∈ c.phase.draws, ∀ token ∈ s.issued,
    token.jti ≠ jti) ∧ ∀ token ∈ c.phase.toIssue, ∀ jti ∈ s.stored token.sid, jti = token.jti))

/-- Every family has one primary key at most and consists of tokens that were minted for its
session, and no two sessions share the id of a token. -/
structure OneLive (s : AuthStore) : Prop where
  one : s.OnePrimary
  minted : s.FamiliesMinted
  apart : ∀ token ∈ s.issued, ∀ token' ∈ s.issued, token.jti = token'.jti → token.sid = token'.sid

/-- A token is only in the family of its own session. -/
theorem OneLive.sid_eq (h : s.OneLive) {token : RefreshToken} {sid : ℕ} (ht : token ∈ s.issued)
    (hmem : token.jti ∈ s.stored sid) : sid = token.sid := by
  obtain ⟨token', ht', hjti, rfl⟩ := h.minted sid token.jti hmem
  exact h.apart token' ht' token ht hjti

/-- A token is minted with a random id, or with the id of a successor. -/
theorem mints_cases : ∀ token ∈ s.mints cfg p, token.jti ∈ p.draws ∨
    ∃ x access, p = .minting x access token.jti ∧ token.binding = x.token.binding := by
  intro token ht
  cases p with
  | validated x successor =>
    obtain ⟨endpoint, presented, user⟩ := x
    cases endpoint with
    | verify => cases ht
    | refresh newJti retryJti =>
      cases successor with
      | none =>
        cases ht
        exact .inl rfl
      | some successor => cases ht
  | rotating x access new retryJti =>
    cases retryJti with
    | none => cases ht
    | some retryJti =>
      cases ht
      exact .inl rfl
  | opening userId jti sid =>
    cases ht
    exact .inl rfl
  | minting x access successor =>
    cases ht
    exact .inr ⟨x, access, rfl, rfl⟩
  | _ => cases ht

/-- A token that a step mints with an id that a token already has is for the same session. -/
theorem mints_apart (hs : s.OneLive) (hp : s.Minted c.phase) (hfresh : FreshIds s c) :
    ∀ new ∈ s.mints cfg c.phase, ∀ token ∈ s.issued, token.jti = new.jti → token.sid = new.sid := by
  intro new hnew token ht hjti
  rcases mints_cases new hnew with hdraw | ⟨x, access, hphase, hbinding⟩
  · exact absurd hjti (hfresh.1 new.jti hdraw token ht)
  · rw [hphase] at hp
    obtain ⟨token', ht', hjti', hsid⟩ := hp
    rw [hs.apart token ht token' ht' (hjti.trans hjti'.symm), hsid]
    exact (congrArg SessionRow.sid hbinding).symm

theorem minted_advance (hs : s.FamiliesMinted) (hc : s.Minted c.phase) :
    ∀ c' ∈ (s.advance cfg c).2, (s.advance cfg c).1.Minted c'.phase := by
  intro c' hc'
  rcases @advance_cases cfg s c with ⟨replies, heq⟩ | ⟨-, p, replies, heq, rfl | rfl⟩
  · rw [heq] at hc' ⊢
    obtain rfl := Option.some.inj hc'
    exact minted_step hs c.phase
  · rw [heq] at hc' ⊢
    obtain rfl := Option.some.inj hc'
    exact hc.mono (List.Subset.refl _)
  · rw [heq] at hc' ⊢
    obtain rfl := Option.some.inj hc'
    trivial

theorem oneLive_advance (hs : s.OneLive) (hc : s.Minted c.phase) (hformed : c.phase.Formed)
    (hfresh : FreshIds s c) : (s.advance cfg c).1.OneLive := by
  have hredis := @advance_toRedisStore cfg s c
  have hsubset := @issued_subset_advance cfg s c
  refine ⟨?_, fun sid jti hjti => ?_, ?_⟩
  · rw [hredis]
    refine onePrimary_effect hs.one hformed (fun token ht sid => hs.sid_eq (hc.of_mem_toStore ht))
      fun access token hphase => ?_
    exact hfresh.2 token (by rw [hphase]; rfl)
  · rw [hredis] at hjti
    rcases mem_stored_effect hformed hjti with hjti | ⟨token, ht, rfl, rfl⟩
    · exact (hs.minted sid jti hjti).imp fun token ht => ⟨hsubset ht.1, ht.2⟩
    · exact ⟨token, hsubset (hc.of_mem_toStore ht), rfl, rfl⟩
  · rcases @advance_issued cfg s c with h | ⟨token, hmint, h⟩
    · exact h.symm ▸ hs.apart
    · have hnew : ∀ t ∈ s.issued, t.jti = token.jti → t.sid = token.sid :=
        mints_apart hs hc hfresh token hmint
      rw [h]
      intro t hmem t' hmem' htt'
      rcases List.mem_append.mp hmem with ht | ht <;> rcases List.mem_append.mp hmem' with ht' | ht'
      · exact hs.apart t ht t' ht' htt'
      · obtain rfl := List.mem_singleton.mp ht'
        exact hnew t ht htt'
      · obtain rfl := List.mem_singleton.mp ht
        exact (hnew t' ht' htt'.symm).symm
      · obtain rfl := List.mem_singleton.mp ht
        obtain rfl := List.mem_singleton.mp ht'
        rfl

theorem oneLive_interleave (ts : List (Turn (AuthRequest × List Reply))) (hs : s.OneLive)
    (hts : (sessions cfg).Respects FreshIds ⟨s, []⟩ ts) :
    ((sessions cfg).interleave ⟨s, []⟩ ts).shared.OneLive := by
  refine (Sessions.interleave_local (I := OneLive)
    (J := fun s c => s.Minted c.phase ∧ c.phase.Formed)
    (fun s r _ => ?_) (fun s c hs hc hok => ?_) ts hs (by simp) hts).1
  · obtain ⟨r, replies⟩ := r
    cases r <;> exact ⟨trivial, trivial⟩
  · exact ⟨oneLive_advance hs hc.1 hc.2 hok,
      fun c' hc' => ⟨minted_advance hs.minted hc.1 c' hc', formed_advance hc.2 hc'⟩,
      fun q hq => ⟨hq.1.mono (issued_subset_advance s c), hq.2⟩⟩

/-! ### What a request hands out -/

/-- The primary key of the successor that a catch-up has looked up is still there when the
membership in the family is checked. -/
def SuccessorLive (s : AuthStore) (c : Call) : Prop :=
  match c.phase with
  | .catchingUpMember x _ successor => s.sessionValidate successor = some x.token.binding
  | _ => True

/-- The two commands that lead past the last check of a `/refresh`. -/
theorem emits_step (hp : p.OnRedis) : ∀ e ∈ (s.step cfg p).2.emits,
    (∃ x access successor, p = .catchingUpMember x access successor ∧
      successor ∈ s.members x.token.sid ∧ e = (successor, x.token.binding)) ∨
    ∃ x access new retryJti, p = .rotating x access new retryJti ∧
      s.rotateResult x.token.jti new.jti x.token.sid = .ok ∧ e = (new.jti, new.binding) := by
  intro e he
  cases p with
  | catchingUpMember x access successor =>
    simp only [step] at he
    split_ifs at he with hmember
    · cases he
      exact .inl ⟨x, access, successor, rfl, hmember, rfl⟩
    · cases he
  | rotating x access new retryJti =>
    simp only [step] at he
    split at he
    · next hok =>
      cases he
      exact .inr ⟨x, access, new, _, rfl, hok, rfl⟩
    all_goals cases he
  | probing x =>
    simp only [step] at he
    split at he
    · split_ifs at he <;> cases he
    · cases he
  | probingGrace x =>
    simp only [step] at he
    split at he <;> cases he
  | recheckingFamily x access row =>
    cases row with
    | none => cases he
    | some row =>
      simp only [step] at he
      split_ifs at he <;> cases he
  | checkingMember x | checkingFamily x row | catchingUp x access successor | revoking sid =>
    simp only [step] at he
    split_ifs at he <;> cases he
  | issuing access token | reprobingGrace x access | cleaning jtis => cases he
  | _ => exact hp.elim

theorem emits_advance (hc : c.phase.OnRedis) {c' : Call} (hc' : c' ∈ (s.advance cfg c).2)
    {e : ℕ × SessionRow} (he : e ∈ c'.phase.emits) : e ∈ (s.step cfg c.phase).2.emits := by
  rcases advance_phase hc' with h | ⟨-, h | h⟩
  · rwa [h] at he
  · rw [h] at he
    cases hphase : c.phase <;> rw [hphase] at he hc <;> first | exact hc.elim | cases he
  · rw [h] at he
    cases hphase : c.phase <;> rw [hphase] at he <;> cases he

/-- In every run in which the ids that are drawn are new, a session has one live token at most; and
the token that a request hands out has, after the last command of the request, a primary key for its
user and session and is in the family, exactly when the catch-up still finds the primary key of its
successor. -/
theorem one_live_token (cfg : AuthSettings) (hsession : 0 < cfg.sessionTtl) (clock : ℤ)
    (users : ℕ → Option AuthUser) (ts : List (Turn (AuthRequest × List Reply)))
    (hts : (sessions cfg).Respects FreshIds ⟨{ clock, users }, []⟩ ts) :
    let after := (sessions cfg).interleave ⟨{ clock, users }, []⟩ ts
    (∀ sid jti jti', after.shared.LiveIn sid jti → after.shared.LiveIn sid jti' → jti = jti') ∧
      ∀ c ∈ after.live, c.phase.OnRedis → ∀ c' ∈ (after.shared.advance cfg c).2,
        ∀ e ∈ c'.phase.emits,
          ((after.shared.advance cfg c).1.sessionValidate e.1 = some e.2 ∧
            e.1 ∈ (after.shared.advance cfg c).1.members e.2.sid ↔
              SuccessorLive after.shared c) := by
  intro after
  have hstart : OneLive { clock, users } := ⟨by simp [OnePrimary, stored],
    by simp [FamiliesMinted, stored], by simp⟩
  have hone := oneLive_interleave ts hstart hts
  refine ⟨fun sid jti jti' => LiveIn.unique hone.one, fun c hc hredis c' hc' e he => ?_⟩
  have hformed := formed_interleave cfg { clock, users } ts c hc
  rw [advance_toRedisStore]
  rcases emits_step hredis e (emits_advance hredis hc' he) with
    ⟨x, access, successor, hphase, hmember, rfl⟩ | ⟨x, access, new, retryJti, hphase, hok, rfl⟩
  · rw [hphase, SuccessorLive, hphase]
    exact ⟨And.left, fun h => ⟨h, hmember⟩⟩
  · rw [hphase, SuccessorLive, hphase]
    rw [hphase] at hformed
    have hbinding : new.binding = x.token.binding := hformed
    obtain ⟨-, hold, hnew⟩ := rotateResult_eq_ok.mp hok
    have hne : new.jti ≠ x.token.jti := by
      intro hjti
      rw [hjti] at hnew
      exact hold hnew
    have heffect : after.shared.effect cfg (.rotating x access new retryJti) =
        after.shared.rotated cfg x.token.jti new.jti x.token.binding := if_pos hok
    rw [heffect, hbinding]
    exact iff_of_true (live_of_rotated hsession hne) trivial

/-! ### A successor that is rotated away -/

/-- The turns of a refresh that rotates its token. -/
def sampleRotation (token : RefreshToken) (newJti k : ℕ) :
    List (Turn (AuthRequest × List Reply)) :=
  .start (.refresh token newJti 99, []) :: List.replicate 5 (.advance k)

/-- A login and a rotation; then a second tab comes with the old token and has looked up its
successor, when a third tab rotates that one. -/
def sampleRace : List (Turn (AuthRequest × List Reply)) :=
  [.start (.login 1 10 20, []), .advance 0, .advance 0] ++
    sampleRotation (sampleToken 10 20) 11 1 ++
    .start (.refresh (sampleToken 10 20) 13 14, []) :: List.replicate 6 (.advance 2) ++
    sampleRotation (sampleToken 11 20) 12 3

theorem one_live_token_of_sampleRace :
    let after := (sessions sampleSettings).interleave ⟨sampleAuth, []⟩ sampleRace
    (∀ sid jti jti', after.shared.LiveIn sid jti → after.shared.LiveIn sid jti' → jti = jti') ∧
      ∀ c ∈ after.live, c.phase.OnRedis → ∀ c' ∈ (after.shared.advance sampleSettings c).2,
        ∀ e ∈ c'.phase.emits,
          ((after.shared.advance sampleSettings c).1.sessionValidate e.1 = some e.2 ∧
            e.1 ∈ (after.shared.advance sampleSettings c).1.members e.2.sid ↔
              SuccessorLive after.shared c) :=
  one_live_token sampleSettings (by decide) (ofSeconds 1000) sampleAuth.users sampleRace (by decide)

/-- The second tab gets a token whose primary key is gone. -/
theorem not_one_live_token_of_sampleRace :
    let after := (sessions sampleSettings).interleave ⟨sampleAuth, []⟩ sampleRace
    (sessions sampleSettings).Respects FreshIds ⟨sampleAuth, []⟩ sampleRace ∧
      ∃ c ∈ after.live, c.phase.OnRedis ∧ ∃ c' ∈ (after.shared.advance sampleSettings c).2,
        ∃ e ∈ c'.phase.emits,
          (after.shared.advance sampleSettings c).1.sessionValidate e.1 = none := by
  decide

end AuthStore

end Pfv
