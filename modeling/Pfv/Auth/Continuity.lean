import Pfv.Auth.LiveToken

/-!
# A session is not lost

A rotation takes the primary key of its token away in the script that writes the grace key, with the
new token as the successor, and nothing else takes a key of a session that is not revoked before
the lifetime of the session ends. So a request with a token of the session finds one key or the
other at its first command, and again wherever it comes back to them. The one command that can
fail is the look-up of the successor that a grace key names: the successor may be rotated away, and
the request does not follow the chain.

## Main definitions

* `RedisStore.Lasts`: the keys of a session that nothing revokes.
* `AuthStore.Undisturbed`: a step that neither ends the session nor forges a token of it.
* `AuthStore.InWindow`: the premise on the keys of the token that a request presents.
* `AuthStore.SuccessorCurrent`: the successor of a catch-up has not been rotated away.

## Main results

* `RedisStore.lasts_effect`: a step keeps the keys of the session.
* `AuthStore.safe_step`: no check of a request fails.
* `AuthStore.no_false_logout`: no request of the session is refused.
* `AuthStore.not_no_false_logout_of_sampleChain`: a token that was rotated away twice.
-/

namespace Pfv

/-- The token that a request is about to look up for the first time. -/
def AuthPhase.probed : AuthPhase → Option Presented
  | .probing x => some x
  | _ => none

/-- The successor that a catch-up is about to look up or to find in the family. -/
def AuthPhase.follows : AuthPhase → Option ℕ
  | .catchingUp _ _ successor | .catchingUpMember _ _ successor => some successor
  | _ => none

namespace RedisStore

variable {cfg : AuthSettings} {r r' : RedisStore} {row : SessionRow} {createdAt : ℤ}
  {mine : ℕ → Prop} {jti : ℕ}

/-- The keys of a session that nothing has revoked: every token of the family has a key, a primary
key that outlasts the session or a grace key with a successor in the family; and only the tokens of
the family have keys among those that were minted for the session. -/
structure Lasts (cfg : AuthSettings) (row : SessionRow) (createdAt : ℤ) (mine : ℕ → Prop)
    (r : RedisStore) : Prop where
  primary : ∀ jti ∈ r.stored row.sid, ∀ e ∈ r.primary jti,
    e.value = row ∧ createdAt + cfg.sessionTtl ≤ e.expiresAt
  grace : ∀ jti ∈ r.stored row.sid, ∀ e ∈ r.grace jti,
    e.value.toSessionRow = row ∧ e.value.successorJti ∈ r.stored row.sid
  kept : ∀ jti ∈ r.stored row.sid, r.primary jti = none → r.grace jti ≠ none
  family : ∀ e ∈ r.family row.sid, createdAt + cfg.sessionTtl ≤ e.expiresAt
  keyed : ∀ jti, mine jti → r.primary jti ≠ none ∨ r.grace jti ≠ none → jti ∈ r.stored row.sid

theorem stored_congr {sid : ℕ} (h : r'.family sid = r.family sid) :
    r'.stored sid = r.stored sid := by
  rw [stored, stored, h]

/-- The family is there as long as the session lasts. -/
theorem Lasts.members_eq (h : r.Lasts cfg row createdAt mine)
    (hclock : r.clock < createdAt + cfg.sessionTtl) : r.members row.sid = r.stored row.sid := by
  unfold members stored
  cases hf : r.family row.sid with
  | none => rfl
  | some e =>
    have hlive : r.clock < e.expiresAt := lt_of_lt_of_le hclock (h.family e hf)
    simp [liveAt, hlive]

theorem Lasts.familyExists (h : r.Lasts cfg row createdAt mine)
    (hclock : r.clock < createdAt + cfg.sessionTtl) (hjti : jti ∈ r.stored row.sid) :
    r.sessionFamilyExists row.sid := by
  unfold stored at hjti
  unfold sessionFamilyExists
  cases hf : r.family row.sid with
  | none => simp [hf] at hjti
  | some e =>
    have hlive : r.clock < e.expiresAt := lt_of_lt_of_le hclock (h.family e hf)
    simp [liveAt, hlive]

/-- A primary key of a token of the family is live and says what the token says. -/
theorem Lasts.validate_eq (h : r.Lasts cfg row createdAt mine)
    (hclock : r.clock < createdAt + cfg.sessionTtl) (hjti : jti ∈ r.stored row.sid)
    (hprimary : r.primary jti ≠ none) : r.sessionValidate jti = some row := by
  obtain ⟨e, he⟩ := Option.ne_none_iff_exists'.mp hprimary
  obtain ⟨hvalue, hdeadline⟩ := h.primary jti hjti e he
  rw [sessionValidate, he, liveAt, if_pos (lt_of_lt_of_le hclock hdeadline), hvalue]

/-- The tokens of a family that has not reached its deadline, after one was added. -/
theorem stored_add {sid new : ℕ} (hr' : r'.family = r.addMember cfg sid new)
    (hmembers : r.members sid = r.stored sid) : r'.stored sid = insert new (r.stored sid) := by
  rw [stored, hr', addMember, Function.update_self, hmembers]
  rfl

/-- What happens to the keys of other sessions does not matter. -/
theorem Lasts.congr (h : r.Lasts cfg row createdAt mine)
    (hmine : ∀ jti ∈ r.stored row.sid, mine jti)
    (hprimary : ∀ jti, mine jti → r'.primary jti = r.primary jti)
    (hgrace : ∀ jti, mine jti → r'.grace jti = r.grace jti)
    (hfamily : r'.family row.sid = r.family row.sid) : r'.Lasts cfg row createdAt mine where
  primary jti hjti := by
    rw [stored_congr hfamily] at hjti
    rw [hprimary jti (hmine jti hjti)]
    exact h.primary jti hjti
  grace jti hjti := by
    rw [stored_congr hfamily] at hjti ⊢
    rw [hgrace jti (hmine jti hjti)]
    exact h.grace jti hjti
  kept jti hjti := by
    rw [stored_congr hfamily] at hjti
    rw [hprimary jti (hmine jti hjti), hgrace jti (hmine jti hjti)]
    exact h.kept jti hjti
  family := hfamily ▸ h.family
  keyed jti hjti := by
    rw [stored_congr hfamily, hprimary jti hjti, hgrace jti hjti]
    exact h.keyed jti hjti

/-- A login of the session gives its token a primary key. -/
theorem lasts_issue (h : r.Lasts cfg row createdAt mine) (hjti : mine jti)
    (hcreated : createdAt ≤ r.clock) (hclock : r.clock < createdAt + cfg.sessionTtl) :
    (r.sessionIssue cfg jti row).Lasts cfg row createdAt mine := by
  have hstored : (r.sessionIssue cfg jti row).stored row.sid = insert jti (r.stored row.sid) :=
    stored_add rfl (h.members_eq hclock)
  have hself : (r.sessionIssue cfg jti row).primary jti =
      some ⟨row, r.clock + cfg.sessionTtl⟩ := Function.update_self ..
  have hother : ∀ j ≠ jti, (r.sessionIssue cfg jti row).primary j = r.primary j :=
    fun j hj => Function.update_of_ne hj ..
  -- a token that comes into the family has had no grace key
  have hgrace : ∀ j ∈ insert jti (r.stored row.sid), ∀ e ∈ r.grace j, j ∈ r.stored row.sid := by
    intro j hj e he
    rcases Finset.mem_insert.mp hj with rfl | hj
    · exact h.keyed j hjti (.inr (by rw [he]; exact Option.some_ne_none e))
    · exact hj
  refine ⟨fun j hj e he => ?_, fun j hj e he => ?_, fun j hj hnone => ?_, fun e he => ?_,
    fun j hj hkey => ?_⟩
  · rw [hstored] at hj
    by_cases hjj : j = jti
    · subst hjj
      rw [hself] at he
      obtain rfl := Option.some.inj he
      exact ⟨rfl, by simpa using hcreated⟩
    · rw [hother j hjj] at he
      exact h.primary j ((Finset.mem_insert.mp hj).resolve_left hjj) e he
  · rw [hstored] at hj ⊢
    have hj' := hgrace j hj e he
    exact ⟨(h.grace j hj' e he).1, Finset.mem_insert_of_mem (h.grace j hj' e he).2⟩
  · rw [hstored] at hj
    by_cases hjj : j = jti
    · subst hjj
      rw [hself] at hnone
      cases hnone
    · rw [hother j hjj] at hnone
      exact h.kept j ((Finset.mem_insert.mp hj).resolve_left hjj) hnone
  · have hfamily : (r.sessionIssue cfg jti row).family row.sid =
        some ⟨insert jti (r.members row.sid), r.clock + cfg.sessionTtl⟩ := Function.update_self ..
    rw [hfamily] at he
    obtain rfl := Option.some.inj he
    simpa using hcreated
  · rw [hstored]
    by_cases hjj : j = jti
    · exact hjj ▸ Finset.mem_insert_self ..
    · rw [hother j hjj] at hkey
      exact Finset.mem_insert_of_mem (h.keyed j hj hkey)

/-- A rotation of the session gives the old token a grace key and the new one a primary key. -/
theorem lasts_rotated (h : r.Lasts cfg row createdAt mine) {oldJti newJti : ℕ} (hnew : mine newJti)
    (hcreated : createdAt ≤ r.clock) (hclock : r.clock < createdAt + cfg.sessionTtl)
    (hok : r.rotateResult oldJti newJti row.sid = .ok) :
    (r.rotated cfg oldJti newJti row).Lasts cfg row createdAt mine := by
  obtain ⟨hmember, hold, hfree⟩ := rotateResult_eq_ok.mp hok
  rw [h.members_eq hclock] at hmember
  have hne : newJti ≠ oldJti := by
    rintro rfl
    exact hold hfree
  have hstored : (r.rotated cfg oldJti newJti row).stored row.sid =
      insert newJti (r.stored row.sid) := stored_add rfl (h.members_eq hclock)
  have hprimaryOld : (r.rotated cfg oldJti newJti row).primary oldJti = none :=
    Function.update_self ..
  have hprimaryNew : (r.rotated cfg oldJti newJti row).primary newJti =
      some ⟨row, r.clock + cfg.sessionTtl⟩ :=
    (Function.update_of_ne hne ..).trans (Function.update_self ..)
  have hprimary : ∀ j ≠ oldJti, j ≠ newJti →
      (r.rotated cfg oldJti newJti row).primary j = r.primary j := fun j hj hj' =>
    (Function.update_of_ne hj ..).trans (Function.update_of_ne hj' ..)
  have hgraceOld : (r.rotated cfg oldJti newJti row).grace oldJti =
      some ⟨{ row with successorJti := newJti }, r.clock + graceTtl⟩ := Function.update_self ..
  have hgraceOther : ∀ j ≠ oldJti, (r.rotated cfg oldJti newJti row).grace j = r.grace j :=
    fun j hj => Function.update_of_ne hj ..
  refine ⟨fun j hj e he => ?_, fun j hj e he => ?_, fun j hj hnone => ?_, fun e he => ?_,
    fun j hj hkey => ?_⟩
  · rw [hstored] at hj
    by_cases hjo : j = oldJti
    · rw [hjo, hprimaryOld] at he
      cases he
    · by_cases hjn : j = newJti
      · rw [hjn, hprimaryNew] at he
        obtain rfl := Option.some.inj he
        exact ⟨rfl, by simpa using hcreated⟩
      · rw [hprimary j hjo hjn] at he
        exact h.primary j ((Finset.mem_insert.mp hj).resolve_left hjn) e he
  · rw [hstored] at hj ⊢
    by_cases hjo : j = oldJti
    · rw [hjo, hgraceOld] at he
      obtain rfl := Option.some.inj he
      exact ⟨rfl, Finset.mem_insert_self ..⟩
    · rw [hgraceOther j hjo] at he
      have hj' : j ∈ r.stored row.sid := by
        rcases Finset.mem_insert.mp hj with rfl | hj
        · exact h.keyed j hnew (.inr (by rw [he]; exact Option.some_ne_none e))
        · exact hj
      exact ⟨(h.grace j hj' e he).1, Finset.mem_insert_of_mem (h.grace j hj' e he).2⟩
  · rw [hstored] at hj
    by_cases hjo : j = oldJti
    · rw [hjo, hgraceOld]
      exact Option.some_ne_none _
    · by_cases hjn : j = newJti
      · rw [hjn, hprimaryNew] at hnone
        cases hnone
      · rw [hprimary j hjo hjn] at hnone
        rw [hgraceOther j hjo]
        exact h.kept j ((Finset.mem_insert.mp hj).resolve_left hjn) hnone
  · have hfamily : (r.rotated cfg oldJti newJti row).family row.sid =
        some ⟨insert newJti (r.members row.sid), r.clock + cfg.sessionTtl⟩ :=
      Function.update_self ..
    rw [hfamily] at he
    obtain rfl := Option.some.inj he
    simpa using hcreated
  · rw [hstored]
    by_cases hjn : j = newJti
    · exact hjn ▸ Finset.mem_insert_self ..
    · by_cases hjo : j = oldJti
      · exact hjo ▸ Finset.mem_insert_of_mem hmember
      · rw [hprimary j hjo hjn, hgraceOther j hjo] at hkey
        exact Finset.mem_insert_of_mem (h.keyed j hj hkey)

/-- A step keeps the keys of a session unless it revokes it: what it stores is for the session or
for another one, and what it deletes is of another one. -/
theorem lasts_effect {p : AuthPhase} (h : r.Lasts cfg row createdAt mine)
    (hmine : ∀ jti ∈ r.stored row.sid, mine jti)
    (hothers : ∀ sid ≠ row.sid, ∀ jti ∈ r.stored sid, ¬mine jti)
    (hcreated : ∀ token ∈ p.toStore, token.sid = row.sid → createdAt ≤ r.clock)
    (hclock : r.clock < createdAt + cfg.sessionTtl) (hformed : p.Formed)
    (hstore : ∀ token ∈ p.toStore, token.binding = row ∧ mine token.jti ∨
      token.sid ≠ row.sid ∧ ¬mine token.jti)
    (hrevoke : p ≠ .revoking row.sid)
    (hclean : ∀ jtis, p = .cleaning jtis → ∀ jti ∈ jtis, ¬mine jti) :
    (r.effect cfg p).Lasts cfg row createdAt mine := by
  cases p with
  | issuing access token =>
    rcases hstore token rfl with ⟨hbinding, hjti⟩ | ⟨hsid, hjti⟩
    · simp only [effect, hbinding]
      exact lasts_issue h hjti (hcreated token rfl (congrArg SessionRow.sid hbinding)) hclock
    · have hne : ∀ jti, mine jti → jti ≠ token.jti := fun jti hm heq => hjti (heq ▸ hm)
      exact h.congr hmine (fun jti hm => Function.update_of_ne (hne jti hm) ..) (fun _ _ => rfl)
        (Function.update_of_ne (Ne.symm hsid) ..)
  | rotating x access new retryJti =>
    simp only [effect, rotateSession]
    split_ifs with hok
    · have hbinding : new.binding = x.token.binding := hformed
      rcases hstore new rfl with ⟨hrow, hjti⟩ | ⟨hsid, hjti⟩
      · rw [← hbinding, hrow] at hok ⊢
        exact lasts_rotated h hjti (hcreated new rfl (congrArg SessionRow.sid hrow)) hclock hok
      · have hsid' : x.token.sid ≠ row.sid := by
          intro heq
          exact hsid ((congrArg SessionRow.sid hbinding).trans heq)
        have hold : ¬mine x.token.jti := hothers x.token.sid hsid' x.token.jti
          (mem_stored_of_mem_members (rotateResult_eq_ok.mp hok).1)
        have hneOld : ∀ jti, mine jti → jti ≠ x.token.jti := fun jti hm heq => hold (heq ▸ hm)
        have hneNew : ∀ jti, mine jti → jti ≠ new.jti := fun jti hm heq => hjti (heq ▸ hm)
        exact h.congr hmine
          (fun jti hm => (Function.update_of_ne (hneOld jti hm) ..).trans
            (Function.update_of_ne (hneNew jti hm) ..))
          (fun jti hm => Function.update_of_ne (hneOld jti hm) ..)
          (Function.update_of_ne (Ne.symm hsid') ..)
    · exact h
  | revoking sid =>
    have hsid : row.sid ≠ sid := by
      rintro rfl
      exact hrevoke rfl
    exact h.congr hmine (fun _ _ => rfl) (fun _ _ => rfl) (Function.update_of_ne hsid ..)
  | cleaning jtis =>
    exact h.congr hmine (fun jti hm => if_neg fun hmem => hclean jtis rfl jti hmem hm)
      (fun jti hm => if_neg fun hmem => hclean jtis rfl jti hmem hm) rfl
  | elapsing ticks =>
    exact h.congr hmine (fun _ _ => rfl) (fun _ _ => rfl) rfl
  | _ => exact h

/-- A step keeps the tokens of the family and their grace keys. -/
theorem stored_effect {p : AuthPhase} (h : r.Lasts cfg row createdAt mine)
    (hmine : ∀ jti ∈ r.stored row.sid, mine jti)
    (hclock : r.clock < createdAt + cfg.sessionTtl) (hrevoke : p ≠ .revoking row.sid)
    (hclean : ∀ jtis, p = .cleaning jtis → ∀ jti ∈ jtis, ¬mine jti) :
    ∀ jti ∈ r.stored row.sid, jti ∈ (r.effect cfg p).stored row.sid ∧
      (r.grace jti ≠ none → (r.effect cfg p).grace jti ≠ none) := by
  intro jti hjti
  have hadd : ∀ {r' : RedisStore} {sid new : ℕ}, r'.family = r.addMember cfg sid new →
      jti ∈ r'.stored row.sid := by
    intro r' sid new hr'
    by_cases hsid : row.sid = sid
    · subst hsid
      rw [stored_add hr' (h.members_eq hclock)]
      exact Finset.mem_insert_of_mem hjti
    · have hfamily : r'.family row.sid = r.family row.sid := by
        rw [hr', addMember, Function.update_of_ne hsid]
      rwa [stored_congr hfamily]
  cases p with
  | issuing access token => exact ⟨hadd rfl, id⟩
  | rotating x access new retryJti =>
    simp only [effect, rotateSession]
    split_ifs
    · refine ⟨hadd rfl, fun hgrace => ?_⟩
      show Function.update r.grace x.token.jti _ jti ≠ none
      by_cases hold : jti = x.token.jti
      · rw [hold, Function.update_self]
        exact Option.some_ne_none _
      · rwa [Function.update_of_ne hold]
    · exact ⟨hjti, id⟩
  | revoking sid =>
    have hsid : row.sid ≠ sid := by
      rintro rfl
      exact hrevoke rfl
    have hfamily : (r.roundA sid).family row.sid = r.family row.sid :=
      Function.update_of_ne hsid ..
    refine ⟨?_, id⟩
    show jti ∈ (r.roundA sid).stored row.sid
    rwa [stored_congr hfamily]
  | cleaning jtis =>
    have hkept : (r.roundB jtis).grace jti = r.grace jti :=
      if_neg fun hmem => hclean jtis rfl jti hmem (hmine jti hjti)
    exact ⟨hjti, fun hgrace hnone => hgrace (hkept.symm.trans hnone)⟩
  | _ => exact ⟨hjti, id⟩

/-- The ids that have a key after a step had one before, or are the one that the step stores or are
in a family. -/
theorem keyed_effect {p : AuthPhase}
    (h : (r.effect cfg p).primary jti ≠ none ∨ (r.effect cfg p).grace jti ≠ none) :
    (r.primary jti ≠ none ∨ r.grace jti ≠ none) ∨ (∃ token ∈ p.toStore, token.jti = jti) ∨
      ∃ sid, jti ∈ r.stored sid := by
  cases p with
  | issuing access token =>
    by_cases hjti : jti = token.jti
    · exact .inr (.inl ⟨token, rfl, hjti.symm⟩)
    · have hprimary : (r.sessionIssue cfg token.jti token.binding).primary jti = r.primary jti :=
        Function.update_of_ne hjti ..
      exact .inl (h.imp_left fun h => hprimary ▸ h)
  | rotating x access new retryJti =>
    simp only [effect, rotateSession] at h
    split_ifs at h with hok
    · by_cases hold : jti = x.token.jti
      · have hmember := (rotateResult_eq_ok.mp hok).1
        exact .inr (.inr ⟨x.token.sid, hold ▸ mem_stored_of_mem_members hmember⟩)
      · by_cases hnew : jti = new.jti
        · exact .inr (.inl ⟨new, rfl, hnew.symm⟩)
        · have hprimary : (r.rotated cfg x.token.jti new.jti x.token.binding).primary jti =
              r.primary jti :=
            (Function.update_of_ne hold ..).trans (Function.update_of_ne hnew ..)
          have hgrace : (r.rotated cfg x.token.jti new.jti x.token.binding).grace jti =
              r.grace jti := Function.update_of_ne hold ..
          exact .inl (h.imp (fun h => hprimary ▸ h) fun h => hgrace ▸ h)
    · exact .inl h
  | cleaning jtis =>
    refine .inl (h.imp (fun h hnone => h ?_) fun h hnone => h ?_)
    · simp [effect, roundB, hnone]
    · simp [effect, roundB, hnone]
  | _ => exact .inl h

end RedisStore

namespace AuthStore

open RedisStore

variable {cfg : AuthSettings} {s : AuthStore} {c : Call} {p : AuthPhase} {row : SessionRow}
  {createdAt : ℤ} {watched : Endpoint → Prop}

/-! ### Requests of the session -/

/-- A step does not end the session: a login opens no session with its id but the one of its user
at that moment; a token of the session that is presented was handed out and the row of its user
admits it; and no logout revokes the session. -/
def Harmless (row : SessionRow) (createdAt : ℤ) (s : AuthStore) : AuthPhase → Prop
  | .opening userId _ sid => sid = row.sid → userId = row.userId ∧ s.clock = createdAt
  | .reading _ token => token.sid = row.sid → token ∈ s.issued ∧
      ∃ user ∈ s.users token.sub, user.isActive = true ∧ ¬IssuedBeforeCutoff user token.iat
  | .revoking sid => sid ≠ row.sid
  | _ => True

instance (row : SessionRow) (createdAt : ℤ) (s : AuthStore) :
    DecidablePred (Harmless row createdAt s)
  | .opening userId _ sid =>
      inferInstanceAs (Decidable (sid = row.sid → userId = row.userId ∧ s.clock = createdAt))
  | .reading _ token => inferInstanceAs (Decidable (token.sid = row.sid → token ∈ s.issued ∧
      ∃ user ∈ s.users token.sub, user.isActive = true ∧ ¬IssuedBeforeCutoff user token.iat))
  | .revoking sid => inferInstanceAs (Decidable (sid ≠ row.sid))
  | .issuing .. | .probing _ | .checkingMember _ | .probingGrace _ | .checkingFamily ..
  | .validated .. | .rotating .. | .reprobingGrace .. | .recheckingFamily .. | .catchingUp ..
  | .catchingUpMember .. | .minting .. | .cleaning _ | .stamping .. | .invalidating ..
  | .elapsing _ | .answered _ => .isTrue trivial

/-- A step while the session lasts: its ids are new, the lifetime of the session is not over, and it
does not end the session. -/
def Undisturbed (cfg : AuthSettings) (row : SessionRow) (createdAt : ℤ) (s : AuthStore)
    (c : Call) : Prop :=
  FreshIds s c ∧ s.clock < ofSeconds (secondOf (createdAt + cfg.sessionTtl)) ∧
    Harmless row createdAt s c.phase

/-- The token that a request presents has its primary or its grace key when its first command runs,
and the grace key does not come to its deadline while the request runs. -/
def InWindow (s : AuthStore) (p : AuthPhase) : Prop :=
  (∀ x ∈ p.probed, s.sessionValidate x.token.jti ≠ none ∨ s.sessionGrace x.token.jti ≠ none) ∧
    ∀ x ∈ p.presented, ∀ e ∈ s.grace x.token.jti, s.clock < e.expiresAt

/-- The successor of a catch-up still has its primary key. -/
def SuccessorCurrent (s : AuthStore) (p : AuthPhase) : Prop :=
  ∀ successor ∈ p.follows, s.sessionValidate successor ≠ none

/-- The premise: nothing disturbs the session, and a request of the session that is watched comes in
the window. -/
def Steady (cfg : AuthSettings) (row : SessionRow) (createdAt : ℤ) (watched : Endpoint → Prop)
    (s : AuthStore) (c : Call) : Prop :=
  Undisturbed cfg row createdAt s c ∧
    ∀ x ∈ c.phase.presented, x.token.sid = row.sid → watched x.endpoint → InWindow s c.phase

/-- The catch-up of a request that is watched finds its successor current. -/
def Followed (row : SessionRow) (watched : Endpoint → Prop) (s : AuthStore) (c : Call) : Prop :=
  ∀ x ∈ c.phase.presented, x.token.sid = row.sid → watched x.endpoint →
    SuccessorCurrent s c.phase

instance (cfg : AuthSettings) (row : SessionRow) (createdAt : ℤ) (watched : Endpoint → Prop)
    [DecidablePred watched] (s : AuthStore) : DecidablePred (Steady cfg row createdAt watched s) :=
  fun c => inferInstanceAs (Decidable ((FreshIds s c ∧
    s.clock < ofSeconds (secondOf (createdAt + cfg.sessionTtl)) ∧ Harmless row createdAt s c.phase)
    ∧ ∀ x ∈ c.phase.presented, x.token.sid = row.sid → watched x.endpoint →
      (∀ x ∈ c.phase.probed,
        s.sessionValidate x.token.jti ≠ none ∨ s.sessionGrace x.token.jti ≠ none) ∧
      ∀ x ∈ c.phase.presented, ∀ e ∈ s.grace x.token.jti, s.clock < e.expiresAt))

instance (row : SessionRow) (watched : Endpoint → Prop) [DecidablePred watched]
    (s : AuthStore) : DecidablePred (Followed row watched s) :=
  fun c => inferInstanceAs (Decidable (∀ x ∈ c.phase.presented, x.token.sid = row.sid →
    watched x.endpoint → ∀ successor ∈ c.phase.follows, s.sessionValidate successor ≠ none))

/-- A token with an id was minted for a session. -/
def MintedIn (s : AuthStore) (sid jti : ℕ) : Prop :=
  ∃ token ∈ s.issued, token.jti = jti ∧ token.sid = sid

/-- A session that nothing revokes: its keys, and the tokens that were minted for it. -/
structure Continues (cfg : AuthSettings) (row : SessionRow) (createdAt : ℤ) (s : AuthStore) :
    Prop where
  lasts : s.Lasts cfg row createdAt (s.MintedIn row.sid)
  known : ∀ jti, s.primary jti ≠ none ∨ s.grace jti ≠ none → ∃ token ∈ s.issued, token.jti = jti
  tokens : ∀ token ∈ s.issued, token.sid = row.sid → token.binding = row ∧
    token.sessionCreatedAt = createdAt ∧ secondOf (createdAt + cfg.sessionTtl) ≤ token.exp ∧
      createdAt ≤ s.clock

/-- What a request has found for which its next check will not refuse it. -/
def Safe (row : SessionRow) (s : AuthStore) : AuthPhase → Prop
  | .checkingMember x | .validated x none | .rotating x _ _ _ => x.token.jti ∈ s.stored row.sid
  | .probingGrace x | .reprobingGrace x _ =>
      x.token.jti ∈ s.stored row.sid ∧ s.grace x.token.jti ≠ none
  | .checkingFamily _ g => g.toSessionRow = row ∧ g.successorJti ∈ s.stored row.sid
  | .recheckingFamily _ _ g =>
      ∃ found ∈ g, found.toSessionRow = row ∧ found.successorJti ∈ s.stored row.sid
  | .validated _ (some successor) | .catchingUp _ _ successor
  | .catchingUpMember _ _ successor => successor ∈ s.stored row.sid
  | .answered (.unauthorized _) => False
  | _ => True

theorem Safe.mono {s' : AuthStore} (h : s.Safe row p)
    (hs : ∀ jti ∈ s.stored row.sid, jti ∈ s'.stored row.sid ∧
      (s.grace jti ≠ none → s'.grace jti ≠ none)) : s'.Safe row p := by
  cases p with
  | checkingMember x | rotating x access new retryJti => exact (hs _ h).1
  | validated x successor => cases successor <;> exact (hs _ h).1
  | probingGrace x | reprobingGrace x access => exact ⟨(hs _ h.1).1, (hs _ h.1).2 h.2⟩
  | checkingFamily x g => exact ⟨h.1, (hs _ h.2).1⟩
  | recheckingFamily x access g =>
    obtain ⟨found, hg, hrow, hstored⟩ := h
    exact ⟨found, hg, hrow, (hs _ hstored).1⟩
  | catchingUp x access successor | catchingUpMember x access successor => exact (hs _ h).1
  | answered answer => cases answer <;> exact h
  | _ => trivial

theorem goOn_safe {x : Presented} {successor : Option ℕ} (h : s.Safe row (.validated x successor)) :
    s.Safe row (s.goOn cfg x successor).2 := by
  obtain ⟨endpoint, token, user⟩ := x
  cases endpoint with
  | verify => trivial
  | refresh newJti retryJti => cases successor <;> exact h

theorem lt_of_lifetime (h : s.clock < ofSeconds (secondOf (createdAt + cfg.sessionTtl))) :
    s.clock < createdAt + cfg.sessionTtl := by
  unfold ofSeconds secondOf at h
  omega

/-- No check of a request with a token of the session fails. -/
theorem safe_step (hs : s.Continues cfg row createdAt)
    (hlifetime : s.clock < ofSeconds (secondOf (createdAt + cfg.sessionTtl))) {x : Presented}
    (hx : x ∈ p.presented) (hsid : x.token.sid = row.sid) (hissued : x.token ∈ s.issued)
    (hsafe : s.Safe row p) (hwindow : InWindow s p) (hcurrent : SuccessorCurrent s p) :
    s.Safe row (s.step cfg p).2 := by
  have hclock := lt_of_lifetime hlifetime
  obtain ⟨hbinding, hcreated, -, -⟩ := hs.tokens x.token hissued hsid
  have hlasts := hs.lasts
  cases p with
  | probing x' =>
    cases hx
    have hjti : x.token.jti ∈ s.stored row.sid :=
      hlasts.keyed _ ⟨x.token, hissued, rfl, hsid⟩
        ((hwindow.1 x rfl).imp primary_ne_none fun h hnone =>
        h (by rw [sessionGrace, hnone]; rfl))
    simp only [step]
    cases hvalidate : s.sessionValidate x.token.jti with
    | some found =>
      have hrow := hlasts.validate_eq hclock hjti (primary_ne_none (by simp [hvalidate]))
      have hfound : found = x.token.binding := by
        rw [hbinding]
        exact Option.some.inj (hvalidate.symm.trans hrow)
      simp only [if_pos hfound]
      exact hjti
    | none =>
      have hgrace := (hwindow.1 x rfl).resolve_left (not_not_intro hvalidate)
      exact ⟨hjti, fun hnone => hgrace (by rw [sessionGrace, hnone]; rfl)⟩
  | checkingMember x' =>
    cases hx
    have hmember : x.token.jti ∈ s.members x.token.sid := by
      rw [hsid, hlasts.members_eq hclock]
      exact hsafe
    simp only [step, if_pos hmember]
    exact hsafe
  | probingGrace x' =>
    cases hx
    obtain ⟨e, he⟩ := Option.ne_none_iff_exists'.mp hsafe.2
    have hgrace : s.sessionGrace x.token.jti = some e.value := by
      rw [sessionGrace, he, liveAt, if_pos (hwindow.2 x rfl e he)]
    simp only [step, hgrace]
    exact hlasts.grace _ hsafe.1 e he
  | checkingFamily x' g =>
    cases hx
    have hfamily : s.sessionFamilyExists x.token.sid := by
      rw [hsid]
      exact hlasts.familyExists hclock hsafe.2
    simp only [step, if_pos (And.intro hfamily (hsafe.1.trans hbinding.symm))]
    exact hsafe.2
  | validated x' successor =>
    cases hx
    have hyoung : ¬cfg.sessionTtl < s.clock - x.token.sessionCreatedAt := by omega
    simp only [step, if_neg hyoung]
    exact goOn_safe hsafe
  | rotating x' access new retryJti =>
    cases hx
    have hmember : x.token.jti ∈ s.members x.token.sid := by
      rw [hsid, hlasts.members_eq hclock]
      exact hsafe
    simp only [step]
    split
    · trivial
    · next hresult =>
      unfold rotateResult at hresult
      split_ifs at hresult
    · next hresult =>
      refine ⟨hsafe, hlasts.kept _ hsafe ?_⟩
      by_contra hprimary
      have hvalidate := hlasts.validate_eq hclock hsafe hprimary
      have hold : s.sessionValidate x.token.jti ≠ none := by simp [hvalidate]
      unfold rotateResult at hresult
      split_ifs at hresult
    · exact hsafe
    · trivial
  | reprobingGrace x' access =>
    cases hx
    obtain ⟨e, he⟩ := Option.ne_none_iff_exists'.mp hsafe.2
    have hgrace : s.sessionGrace x.token.jti = some e.value := by
      rw [sessionGrace, he, liveAt, if_pos (hwindow.2 x rfl e he)]
    simp only [step, hgrace]
    exact ⟨e.value, rfl, hlasts.grace _ hsafe.1 e he⟩
  | recheckingFamily x' access g =>
    cases hx
    obtain ⟨found, rfl, hrow, hstored⟩ := hsafe
    have hfamily : s.sessionFamilyExists x.token.sid := by
      rw [hsid]
      exact hlasts.familyExists hclock hstored
    simp only [step, if_pos (And.intro hfamily (hrow.trans hbinding.symm))]
    exact hstored
  | catchingUp x' access successor =>
    cases hx
    have hvalidate := hlasts.validate_eq hclock hsafe (primary_ne_none (hcurrent successor rfl))
    rw [← hbinding] at hvalidate
    simp only [step, if_pos hvalidate]
    exact hsafe
  | catchingUpMember x' access successor =>
    cases hx
    have hmember : successor ∈ s.members x.token.sid := by
      rw [hsid, hlasts.members_eq hclock]
      exact hsafe
    simp only [step, if_pos hmember]
    trivial
  | minting x' access successor => trivial
  | _ => cases hx

/-- A request that goes on to delete keys has found them in the family of another session. -/
theorem cleaning_step {jtis : Finset ℕ} (h : (s.step cfg p).2 = .cleaning jtis) :
    ∃ sid, p = .revoking sid ∧ jtis = s.members sid := by
  cases p with
  | revoking sid =>
    simp only [step] at h
    split_ifs at h
    cases h
    exact ⟨sid, rfl, rfl⟩
  | opening userId jti sid =>
    simp only [step] at h
    split at h
    · split_ifs at h
    · cases h
  | reading endpoint token =>
    simp only [step] at h
    split_ifs at h
    split at h
    · split_ifs at h
      cases h
    · cases h
  | probing x =>
    simp only [step] at h
    split at h
    · split_ifs at h
      cases h
    · cases h
  | probingGrace x =>
    simp only [step] at h
    split at h <;> cases h
  | validated x successor =>
    obtain ⟨endpoint, token, user⟩ := x
    simp only [step] at h
    split_ifs at h
    · cases h
    · cases endpoint with
      | verify => cases h
      | refresh newJti retryJti => cases successor <;> cases h
  | rotating x access new retryJti =>
    simp only [step] at h
    split at h <;> cases h
  | recheckingFamily x access g =>
    cases g with
    | none => cases h
    | some g =>
      simp only [step] at h
      split_ifs at h
      cases h
  | checkingMember x | checkingFamily x g | catchingUp x access successor
  | catchingUpMember x access successor =>
    simp only [step] at h
    split_ifs at h
    cases h
  | _ => cases h

/-- A request while the session lasts: what it carries was minted, what it is about to delete is of
other sessions, a token of the session that it has presented was minted, and the checks of the
requests that are watched do not fail. -/
structure Kept (watched : Endpoint → Prop) (row : SessionRow) (s : AuthStore) (p : AuthPhase) :
    Prop where
  minted : s.Minted p
  formed : p.Formed
  apart : ∀ jtis, p = .cleaning jtis → ∀ jti ∈ jtis, ∃ sid ≠ row.sid, s.MintedIn sid jti
  genuine : ∀ x ∈ p.presented, x.token.sid = row.sid → x.token ∈ s.issued
  safe : ∀ x ∈ p.presented, x.token.sid = row.sid → watched x.endpoint → s.Safe row p

theorem MintedIn.mono {s' : AuthStore} {sid jti : ℕ} (h : s.MintedIn sid jti)
    (hs : s.issued ⊆ s'.issued) : s'.MintedIn sid jti :=
  h.imp fun _ ht => ⟨hs ht.1, ht.2⟩

theorem OneLive.mintedIn_unique (h : s.OneLive) {sid sid' jti : ℕ} (hjti : s.MintedIn sid jti)
    (hjti' : s.MintedIn sid' jti) : sid = sid' := by
  obtain ⟨token, ht, rfl, rfl⟩ := hjti
  obtain ⟨token', ht', hsame, rfl⟩ := hjti'
  exact h.apart token ht token' ht' hsame.symm

theorem Kept.mono {s' : AuthStore} (h : Kept watched row s p) (hissued : s.issued ⊆ s'.issued)
    (hs : ∀ jti ∈ s.stored row.sid, jti ∈ s'.stored row.sid ∧
      (s.grace jti ≠ none → s'.grace jti ≠ none)) : Kept watched row s' p where
  minted := h.minted.mono hissued
  formed := h.formed
  apart jtis hp jti hjti := (h.apart jtis hp jti hjti).imp fun _ hm => ⟨hm.1, hm.2.mono hissued⟩
  genuine x hx hsid := hissued (h.genuine x hx hsid)
  safe x hx hsid hw := (h.safe x hx hsid hw).mono hs

/-- The tokens of the family and their grace keys stay. -/
theorem stored_advance (hone : s.OneLive) (hs : s.Continues cfg row createdAt)
    (hc : Kept watched row s c.phase) (hok : Undisturbed cfg row createdAt s c) :
    ∀ jti ∈ s.stored row.sid, jti ∈ (s.advance cfg c).1.stored row.sid ∧
      (s.grace jti ≠ none → (s.advance cfg c).1.grace jti ≠ none) := by
  rw [advance_toRedisStore]
  refine stored_effect hs.lasts (hone.minted row.sid) (lt_of_lifetime hok.2.1) (fun hphase => ?_)
    fun jtis hphase jti hjti hmine => ?_
  · have hsid := hok.2.2
    rw [hphase] at hsid
    exact hsid rfl
  · obtain ⟨sid, hsid, hother⟩ := hc.apart jtis hphase jti hjti
    exact hsid (hone.mintedIn_unique hother hmine)

/-- A token that a step mints for the session is of the kind of its tokens. -/
theorem mints_session (hs : s.Continues cfg row createdAt) (hc : Kept watched row s c.phase)
    (hok : Undisturbed cfg row createdAt s c) : ∀ token ∈ s.mints cfg c.phase,
      token.sid = row.sid → token.binding = row ∧ token.sessionCreatedAt = createdAt ∧
        secondOf (createdAt + cfg.sessionTtl) ≤ token.exp ∧ createdAt ≤ s.clock := by
  intro token ht hsid
  have hexp : createdAt ≤ s.clock → secondOf (createdAt + cfg.sessionTtl) ≤
      secondOf (s.clock + cfg.sessionTtl) := by
    intro h
    unfold secondOf
    omega
  -- a token that is minted for a token presented
  have hpresented : ∀ {x : Presented} {jti : ℕ}, x ∈ c.phase.presented → x.token.sid = row.sid →
      (s.mintRefresh cfg x.token.binding jti x.token.sessionCreatedAt).binding = row ∧
        x.token.sessionCreatedAt = createdAt ∧ secondOf (createdAt + cfg.sessionTtl) ≤
          secondOf (s.clock + cfg.sessionTtl) ∧ createdAt ≤ s.clock := by
    intro x jti hx hsid
    obtain ⟨hbinding, hcreated, -, hle⟩ := hs.tokens x.token (hc.genuine x hx hsid) hsid
    exact ⟨hbinding, hcreated, hexp hle, hle⟩
  cases hphase : c.phase with
  | opening userId jti sid =>
    have hlogin := hok.2.2
    rw [hphase] at ht hlogin
    cases ht
    obtain ⟨huser, hclock⟩ := hlogin hsid
    have hbinding : (⟨userId, sid⟩ : SessionRow) = row := by
      rw [huser, show sid = row.sid from hsid]
    exact ⟨hbinding, hclock, hexp hclock.ge, hclock.ge⟩
  | validated x successor =>
    obtain ⟨endpoint, presented, user⟩ := x
    rw [hphase] at ht
    cases endpoint with
    | verify => cases ht
    | refresh newJti retryJti =>
      cases successor with
      | none =>
        cases ht
        exact hpresented (by rw [hphase]; rfl) hsid
      | some successor => cases ht
  | rotating x access new retryJti =>
    rw [hphase] at ht
    cases retryJti with
    | none => cases ht
    | some retryJti =>
      cases ht
      exact hpresented (by rw [hphase]; rfl) hsid
  | minting x access successor =>
    rw [hphase] at ht
    cases ht
    exact hpresented (by rw [hphase]; rfl) hsid
  | _ => rw [hphase] at ht; cases ht

theorem clock_le_advance (s : AuthStore) (c : Call) : s.clock ≤ (s.advance cfg c).1.clock := by
  rw [advance_toRedisStore]
  cases c.phase with
  | rotating x access new retryJti =>
    simp only [effect, rotateSession]
    split_ifs <;> exact le_rfl
  | elapsing ticks =>
    show s.clock ≤ s.clock + ticks
    omega
  | _ => exact le_rfl

/-- A step keeps the session. -/
theorem continues_advance (hone : s.OneLive) (hs : s.Continues cfg row createdAt)
    (hc : Kept watched row s c.phase) (hok : Undisturbed cfg row createdAt s c) :
    (s.advance cfg c).1.Continues cfg row createdAt := by
  have hredis := @advance_toRedisStore cfg s c
  have hsubset := @issued_subset_advance cfg s c
  have hkeys : ∀ jti, (s.effect cfg c.phase).primary jti ≠ none ∨
      (s.effect cfg c.phase).grace jti ≠ none → ∃ token ∈ s.issued, token.jti = jti := by
    intro jti hkey
    rcases keyed_effect hkey with hkey | ⟨token, ht, rfl⟩ | ⟨sid, hjti⟩
    · exact hs.known jti hkey
    · exact ⟨token, hc.minted.of_mem_toStore ht, rfl⟩
    · exact (hone.minted sid jti hjti).imp fun _ ht => ⟨ht.1, ht.2.1⟩
  have hlasts : (s.effect cfg c.phase).Lasts cfg row createdAt (s.MintedIn row.sid) := by
    refine lasts_effect hs.lasts (hone.minted row.sid) (fun sid hsid jti hjti hmine => ?_)
      (fun token ht hsid => ?_) (lt_of_lifetime hok.2.1) hc.formed (fun token ht => ?_)
      (fun hphase => ?_) fun jtis hphase jti hjti hmine => ?_
    · exact hsid (hone.mintedIn_unique (hone.minted sid jti hjti) hmine)
    · exact (hs.tokens token (hc.minted.of_mem_toStore ht) hsid).2.2.2
    · have hissued := hc.minted.of_mem_toStore ht
      by_cases hsid : token.sid = row.sid
      · exact .inl ⟨(hs.tokens token hissued hsid).1, token, hissued, rfl, hsid⟩
      · exact .inr ⟨hsid, fun hmine => hsid
          (hone.mintedIn_unique ⟨token, hissued, rfl, rfl⟩ hmine)⟩
    · have hsid := hok.2.2
      rw [hphase] at hsid
      exact hsid rfl
    · obtain ⟨sid, hsid, hother⟩ := hc.apart jtis hphase jti hjti
      exact hsid (hone.mintedIn_unique hother hmine)
  refine ⟨?_, fun jti hkey => ?_, fun token ht hsid => ?_⟩
  · rw [hredis]
    refine ⟨hlasts.primary, hlasts.grace, hlasts.kept, hlasts.family, fun jti hmine hkey => ?_⟩
    refine hlasts.keyed jti ?_ hkey
    -- a token that has just been minted with a new id has no key
    obtain ⟨token, ht, rfl, hsid⟩ := hmine
    rcases @advance_issued cfg s c with h | ⟨new, hnew, h⟩
    · exact ⟨token, h ▸ ht, rfl, hsid⟩
    · rw [h] at ht
      rcases List.mem_append.mp ht with ht | ht
      · exact ⟨token, ht, rfl, hsid⟩
      · obtain rfl := List.mem_singleton.mp ht
        obtain ⟨known, hknown, hjti⟩ := hkeys token.jti hkey
        exact ⟨known, hknown, hjti,
          (mints_apart hone hc.minted hok.1 token hnew known hknown hjti).trans hsid⟩
  · rw [hredis] at hkey
    exact (hkeys jti hkey).imp fun _ ht => ⟨hsubset ht.1, ht.2⟩
  · have hold : token ∈ s.issued ∨ token ∈ s.mints cfg c.phase := by
      rcases @advance_issued cfg s c with h | ⟨new, hnew, h⟩
      · exact .inl (h ▸ ht)
      · rw [h] at ht
        rcases List.mem_append.mp ht with ht | ht
        · exact .inl ht
        · obtain rfl := List.mem_singleton.mp ht
          exact .inr hnew
    obtain ⟨hbinding, hcreated, hexp, hle⟩ := hold.elim (fun ht => hs.tokens token ht hsid)
      fun ht => mints_session hs hc hok token ht hsid
    exact ⟨hbinding, hcreated, hexp, hle.trans (clock_le_advance s c)⟩

/-- A step leads to a phase that keeps what the session needs. -/
theorem kept_step (hone : s.OneLive) (hs : s.Continues cfg row createdAt)
    (hc : Kept watched row s c.phase) (hok : Steady cfg row createdAt watched s c)
    (hfollowed : Followed row watched s c)
    (hs' : ∀ jti ∈ s.stored row.sid, jti ∈ (s.step cfg c.phase).1.stored row.sid ∧
      (s.grace jti ≠ none → (s.step cfg c.phase).1.grace jti ≠ none))
    (hissued : s.issued ⊆ (s.step cfg c.phase).1.issued) :
    Kept watched row (s.step cfg c.phase).1 (s.step cfg c.phase).2 where
  minted := minted_step hone.minted c.phase
  formed := formed_step s c.phase
  apart jtis hp jti hjti := by
    obtain ⟨sid, hphase, rfl⟩ := cleaning_step hp
    have hsid := hok.1.2.2
    rw [hphase] at hsid
    obtain ⟨token, ht, hsame⟩ := hone.minted sid jti (mem_stored_of_mem_members hjti)
    exact ⟨sid, hsid, token, hissued ht, hsame⟩
  genuine x hx hsid := by
    rcases presented_step x hx with hx | ⟨hphase, -⟩
    · exact hissued (hc.genuine x hx hsid)
    · have hread := hok.1.2.2
      rw [hphase] at hread
      exact hissued (hread hsid).1
  safe x hx hsid hw := by
    rcases presented_step x hx with hx | ⟨-, hprobing⟩
    · exact (safe_step hs hok.1.2.1 hx hsid (hc.genuine x hx hsid) (hc.safe x hx hsid hw)
        (hok.2 x hx hsid hw) (hfollowed x hx hsid hw)).mono hs'
    · rw [hprobing]
      trivial

theorem kept_answered (answer : AuthAnswer) : Kept watched row s (.answered answer) where
  minted := trivial
  formed := trivial
  apart jtis hp := by cases hp
  genuine x hx := by cases hx
  safe x hx := by cases hx

theorem kept_start (r : AuthRequest) : Kept watched row s r.phase where
  minted := by cases r <;> trivial
  formed := by cases r <;> trivial
  apart jtis hp := by cases r <;> cases hp
  genuine x hx := by cases r <;> cases hx
  safe x hx := by cases r <;> cases hx

theorem kept_advance (hone : s.OneLive) (hs : s.Continues cfg row createdAt)
    (hc : Kept watched row s c.phase) (hok : Steady cfg row createdAt watched s c)
    (hfollowed : Followed row watched s c) : ∀ c' ∈ (s.advance cfg c).2,
      Kept watched row (s.advance cfg c).1 c'.phase := by
  intro c' hc'
  have hstored := stored_advance hone hs hc hok.1
  have hissued := @issued_subset_advance cfg s c
  rcases @advance_cases cfg s c with ⟨replies, heq⟩ | ⟨-, p, replies, heq, rfl | rfl⟩
  · rw [heq] at hc' hstored hissued ⊢
    obtain rfl := Option.some.inj hc'
    exact kept_step hone hs hc hok hfollowed hstored hissued
  · rw [heq] at hc' hstored hissued ⊢
    obtain rfl := Option.some.inj hc'
    exact hc.mono hissued hstored
  · rw [heq] at hc'
    obtain rfl := Option.some.inj hc'
    exact kept_answered c.phase.givesUp

theorem steady_interleave (clock : ℤ) (users : ℕ → Option AuthUser)
    (ts : List (Turn (AuthRequest × List Reply)))
    (hts : (sessions cfg).Respects
      (fun s c => Steady cfg row createdAt watched s c ∧ Followed row watched s c)
      ⟨{ clock, users }, []⟩ ts) :
    let after := (sessions cfg).interleave ⟨{ clock, users }, []⟩ ts
    (after.shared.OneLive ∧ after.shared.Continues cfg row createdAt) ∧
      ∀ c ∈ after.live, Kept watched row after.shared c.phase := by
  have hone : OneLive { clock, users } := ⟨by simp [OnePrimary, stored],
    by simp [FamiliesMinted, stored], by simp⟩
  have hstart : Continues cfg row createdAt { clock, users } :=
    ⟨⟨by simp [stored], by simp [stored], by simp [stored], by simp, by simp [MintedIn]⟩,
      by simp, by simp⟩
  refine Sessions.interleave_local
    (I := fun s : AuthStore => s.OneLive ∧ s.Continues cfg row createdAt)
    (J := fun s c => Kept watched row s c.phase)
    (fun s r _ => ?_) (fun s c hs hc hok => ?_) ts ⟨hone, hstart⟩ (by simp) hts
  · exact kept_start r.1
  · exact ⟨⟨oneLive_advance hs.1 hc.minted hc.formed hok.1.1.1,
      continues_advance hs.1 hs.2 hc hok.1.1⟩, kept_advance hs.1 hs.2 hc hok.1 hok.2,
      fun q hq => hq.mono (issued_subset_advance s c) (stored_advance hs.1 hs.2 hc hok.1.1)⟩

/-- The endpoint and the token of a request that presents one. -/
def presents : AuthPhase → Option (Endpoint × RefreshToken)
  | .reading endpoint token => some (endpoint, token)
  | p => p.presented.map fun x => (x.endpoint, x.token)

theorem reading_admitted (hs : s.Continues cfg row createdAt) {endpoint : Endpoint}
    {token : RefreshToken} (hok : Undisturbed cfg row createdAt s c)
    (hphase : c.phase = .reading endpoint token) (hsid : token.sid = row.sid) :
    ∃ user, (s.step cfg c.phase).2 = .probing ⟨endpoint, token, user⟩ := by
  have hread := hok.2.2
  rw [hphase] at hread ⊢
  obtain ⟨hissued, user, huser, hactive, hcutoff⟩ := hread hsid
  have hexp : s.clock < ofSeconds token.exp := by
    have hle := (hs.tokens token hissued hsid).2.2.1
    have hlifetime := hok.2.1
    unfold ofSeconds at hlifetime ⊢
    omega
  exact ⟨user, by simp only [step, if_pos hexp, Option.mem_def.mp huser, if_pos hactive,
    if_neg hcutoff]⟩

theorem presents_cases {endpoint : Endpoint} {token : RefreshToken}
    (h : (endpoint, token) ∈ presents p) :
    p = .reading endpoint token ∨ ∃ x ∈ p.presented, x.endpoint = endpoint ∧ x.token = token := by
  unfold presents at h
  split at h
  · cases h
    exact .inl rfl
  · obtain ⟨x, hx, heq⟩ := Option.mem_map.mp h
    cases heq
    exact .inr ⟨x, hx, rfl, rfl⟩

theorem not_unauthorized_of_safe (h : s.Safe row p) (detail : String) :
    p ≠ .answered (.unauthorized detail) := by
  rintro rfl
  exact h

/-- The token that a command lets a request hand out is for the session and has its primary key. -/
theorem emits_live (hs : s.Continues cfg row createdAt) (hc : Kept watched row s c.phase)
    (hok : Steady cfg row createdAt watched s c) (hfollowed : Followed row watched s c)
    (hredis : c.phase.OnRedis) {x : Presented}
    (hx : x ∈ c.phase.presented) (hsid : x.token.sid = row.sid) (hw : watched x.endpoint) :
    ∀ e ∈ (s.step cfg c.phase).2.emits,
      e.2 = row ∧ (s.advance cfg c).1.sessionValidate e.1 = some row := by
  intro e he
  have hclock := lt_of_lifetime hok.1.2.1
  have hbinding := (hs.tokens x.token (hc.genuine x hx hsid) hsid).1
  have hsafe := hc.safe x hx hsid hw
  have hcurrent := hfollowed x hx hsid hw
  rw [advance_toRedisStore]
  rcases emits_step hredis e he with
    ⟨x', access, successor, hphase, -, rfl⟩ | ⟨x', access, new, retryJti, hphase, hresult, rfl⟩
  · rw [hphase] at hx hsafe hcurrent ⊢
    cases hx
    exact ⟨hbinding, hs.lasts.validate_eq hclock hsafe (primary_ne_none (hcurrent successor rfl))⟩
  · have hformed := hc.formed
    rw [hphase] at hx hformed ⊢
    cases hx
    obtain ⟨-, hold, hnew⟩ := rotateResult_eq_ok.mp hresult
    have hne : new.jti ≠ x.token.jti := by
      intro hjti
      rw [hjti] at hnew
      exact hold hnew
    have hsession : 0 < cfg.sessionTtl := by
      have hle := (hs.tokens x.token (hc.genuine x (hphase ▸ rfl) hsid) hsid).2.2.2
      omega
    have heffect : s.effect cfg (.rotating x access new retryJti) =
        s.rotated cfg x.token.jti new.jti x.token.binding := if_pos hresult
    rw [heffect, ← hbinding]
    exact ⟨hformed, (live_of_rotated hsession hne).1⟩

/-- In every run in which nothing disturbs the session and the requests that are watched come in the
window: where a catch-up finds its successor current, no step of such a request refuses it, and the
token that a command lets it hand out is for the session and has its primary key. -/
theorem no_false_logout (cfg : AuthSettings) (row : SessionRow) (createdAt : ℤ)
    (watched : Endpoint → Prop) (clock : ℤ) (users : ℕ → Option AuthUser)
    (ts : List (Turn (AuthRequest × List Reply)))
    (hts : (sessions cfg).Respects
      (fun s c => Steady cfg row createdAt watched s c ∧ Followed row watched s c)
      ⟨{ clock, users }, []⟩ ts)
    (c : Call) (hc : c ∈ ((sessions cfg).interleave ⟨{ clock, users }, []⟩ ts).live)
    (hsteady : Steady cfg row createdAt watched
      ((sessions cfg).interleave ⟨{ clock, users }, []⟩ ts).shared c)
    (hfollowed : Followed row watched
      ((sessions cfg).interleave ⟨{ clock, users }, []⟩ ts).shared c)
    (endpoint : Endpoint) (token : RefreshToken) (hpresents : (endpoint, token) ∈ presents c.phase)
    (hwatched : watched endpoint) (hsid : token.sid = row.sid) :
    let s := ((sessions cfg).interleave ⟨{ clock, users }, []⟩ ts).shared
    ∀ c' ∈ (s.advance cfg c).2, (∀ detail, c'.phase ≠ .answered (.unauthorized detail)) ∧
      (c.phase.OnRedis → ∀ e ∈ c'.phase.emits,
        e.2 = row ∧ (s.advance cfg c).1.sessionValidate e.1 = some row) := by
  intro s c' hc'
  obtain ⟨⟨hone, hs⟩, hkept⟩ := steady_interleave clock users ts hts
  have hcall := hkept c hc
  rcases presents_cases hpresents with hphase | ⟨x, hx, rfl, rfl⟩
  · obtain ⟨user, hprobing⟩ := reading_admitted hs hsteady.1 hphase hsid
    rcases advance_phase hc' with h | ⟨hredis, -⟩
    · rw [h, hprobing]
      exact ⟨fun _ => nofun, fun hredis => by rw [hphase] at hredis; exact hredis.elim⟩
    · rw [hphase] at hredis
      exact hredis.elim
  · refine ⟨fun detail => ?_, fun hredis e he =>
      emits_live hs hcall hsteady hfollowed hredis hx hsid hwatched e (emits_advance hredis hc' he)⟩
    rcases advance_phase hc' with h | ⟨-, h | h⟩
    · rw [h]
      exact not_unauthorized_of_safe (safe_step hs hsteady.1.2.1 hx hsid
        (hcall.genuine x hx hsid) (hcall.safe x hx hsid hwatched) (hsteady.2 x hx hsid hwatched)
        (hfollowed x hx hsid hwatched)) detail
    · rw [h]
      exact not_unauthorized_of_safe (hcall.safe x hx hsid hwatched) detail
    · rw [h]
      cases c.phase <;> exact nofun

/-! ### A token that was rotated away twice -/

/-- A login and a rotation; then a second tab comes with the old token and is about to look up its
successor. -/
def sampleCatchUp : List (Turn (AuthRequest × List Reply)) :=
  [.start (.login 1 10 20, []), .advance 0, .advance 0] ++
    sampleRotation (sampleToken 10 20) 11 1 ++
    .start (.refresh (sampleToken 10 20) 13 14, []) :: List.replicate 5 (.advance 2)

/-- The second tab. -/
def sampleTab : Call :=
  ⟨.catchingUp ⟨.refresh 13 14, sampleToken 10 20, {}⟩ ⟨1, 20, 1000, 1900⟩ 11, []⟩

theorem no_false_logout_of_sampleCatchUp :
    let s := ((sessions sampleSettings).interleave ⟨sampleAuth, []⟩ sampleCatchUp).shared
    ∀ c' ∈ (s.advance sampleSettings sampleTab).2, ∀ detail,
      c'.phase ≠ .answered (.unauthorized detail) := by
  intro s c' hc'
  have htab : ((sessions sampleSettings).interleave ⟨sampleAuth, []⟩ sampleCatchUp).live[2]? =
      some sampleTab := by rfl
  exact (no_false_logout sampleSettings ⟨1, 20⟩ (ofSeconds 1000) (· = .refresh 13 14)
    (ofSeconds 1000) sampleAuth.users sampleCatchUp (by decide) sampleTab
    (List.mem_of_getElem? htab) (by decide) (by decide) (.refresh 13 14) (sampleToken 10 20) rfl rfl
    rfl c' hc').1

/-- A login and two rotations; then a second tab comes with the first token, in its window, and is
about to look up the successor, which has been rotated away as well. -/
def sampleChain : List (Turn (AuthRequest × List Reply)) :=
  [.start (.login 1 10 20, []), .advance 0, .advance 0] ++
    sampleRotation (sampleToken 10 20) 11 1 ++
    sampleRotation (sampleToken 11 20) 12 2 ++
    .start (.refresh (sampleToken 10 20) 13 14, []) :: List.replicate 5 (.advance 3)

/-- The second tab is refused. -/
theorem not_no_false_logout_of_sampleChain :
    let after := (sessions sampleSettings).interleave ⟨sampleAuth, []⟩ sampleChain
    (sessions sampleSettings).Respects
        (Steady sampleSettings ⟨1, 20⟩ (ofSeconds 1000) (· = .refresh 13 14)) ⟨sampleAuth, []⟩
        sampleChain ∧
      sampleTab ∈ after.live ∧
      Steady sampleSettings ⟨1, 20⟩ (ofSeconds 1000) (· = .refresh 13 14) after.shared sampleTab ∧
      ∃ c' ∈ (after.shared.advance sampleSettings sampleTab).2,
        c'.phase = .answered (.unauthorized "Session has been invalidated") := by
  intro after
  have htab : after.live[3]? = some sampleTab := by rfl
  exact ⟨by decide, List.mem_of_getElem? htab, by decide, _, rfl, rfl⟩

end AuthStore

end Pfv
