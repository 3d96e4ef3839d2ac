import Pfv.Auth.Revocation

/-!
# What a cutoff invalidates

A change of the password or of the address commits a cutoff to the row of the user, and a token is
accepted while its second is not before the cutoff and the user is active. A request compares its
token with the row that it has read first, and mints its tokens later, at the second of that
moment. A request that has read the row before the commit and mints after it hands out tokens that
the cutoff does not reach. Where no request does that, and the cutoff is ahead of the tokens that
were minted before, no token of an older session is ever accepted again.

## Main definitions

* `AuthStore.Admits`: a row admits a token of a second.
* `AuthStore.CutoffAhead`: a cutoff is ahead of the tokens minted so far.
* `AuthStore.ReadAgain`: a request that mints has read the row that is stored.

## Main results

* `AuthStore.cut_advance`: a step mints no token of an older session that the row admits.
* `AuthStore.invalidation_complete`: no token of an older session is accepted after the commit.
* `AuthStore.not_invalidation_complete_of_sampleInFlight`: a refresh in flight across the commit.
-/

namespace Pfv

/-- The token that a request is about to check against the row of its user. -/
def AuthPhase.reads : AuthPhase → Option RefreshToken
  | .reading _ token => some token
  | _ => none

/-- The session that a login is about to open. -/
def AuthPhase.opens : AuthPhase → Option ℕ
  | .opening _ _ sid => some sid
  | _ => none

/-- The user whose tokens a commit is about to invalidate. -/
def AuthPhase.invalidates : AuthPhase → Option ℕ
  | .invalidating userId _ _ => some userId
  | _ => none

/-- What a request has presented when its next step may mint an access or a refresh token. -/
def AuthPhase.minter : AuthPhase → Option Presented
  | .validated x _ | .rotating x _ _ (some _) | .minting x _ _ => some x
  | _ => none

namespace AuthStore

variable {cfg : AuthSettings} {s : AuthStore} {c : Call} {p : AuthPhase} {userId : ℕ}
  {old : ℕ → Prop}

/-! ### Access tokens and users -/

/-- The access token that the next step of a request may mint. -/
def grants (cfg : AuthSettings) (s : AuthStore) : AuthPhase → Option AccessToken
  | .opening userId _ sid => some (s.mintAccess cfg userId sid)
  | .validated x _ => some (s.mintAccess cfg x.token.sub x.token.sid)
  | _ => none

theorem step_granted (s : AuthStore) (p : AuthPhase) :
    (s.step cfg p).1.granted = s.granted ∨
      ∃ token ∈ s.grants cfg p, (s.step cfg p).1.granted = s.granted ++ [token] := by
  cases p with
  | opening userId jti sid =>
    simp only [step]
    split
    · split_ifs
      · exact .inr ⟨_, rfl, rfl⟩
      · exact .inl rfl
    · exact .inl rfl
  | reading endpoint token =>
    simp only [step]
    split_ifs
    · split
      · split_ifs <;> exact .inl rfl
      · exact .inl rfl
    · exact .inl rfl
  | validated x successor =>
    obtain ⟨endpoint, token, user⟩ := x
    simp only [step]
    split_ifs
    · exact .inl rfl
    · cases endpoint with
      | verify => exact .inr ⟨_, rfl, rfl⟩
      | refresh newJti retryJti => cases successor <;> exact .inr ⟨_, rfl, rfl⟩
  | rotating x access new retryJti =>
    simp only [step]
    split <;> exact .inl rfl
  | recheckingFamily x access row => cases row <;> exact .inl rfl
  | _ => exact .inl rfl

theorem advance_granted (s : AuthStore) (c : Call) :
    (s.advance cfg c).1.granted = s.granted ∨
      ∃ token ∈ s.grants cfg c.phase, (s.advance cfg c).1.granted = s.granted ++ [token] := by
  rcases @advance_cases cfg s c with ⟨replies, heq⟩ | ⟨-, p, replies, heq, -⟩
  · rw [heq]
    exact step_granted s c.phase
  · rw [heq]
    exact .inl rfl

/-- Only a commit for a user changes the row of the user. -/
theorem step_users (hp : p.invalidates ≠ some userId) :
    (s.step cfg p).1.users userId = s.users userId := by
  cases p with
  | invalidating userId' change now =>
    have hne : userId ≠ userId' := fun h => hp (h ▸ rfl)
    exact Function.update_of_ne hne ..
  | opening userId' jti sid =>
    simp only [step]
    split
    · split_ifs <;> rfl
    · rfl
  | reading endpoint token =>
    simp only [step]
    split_ifs
    · split
      · split_ifs <;> rfl
      · rfl
    · rfl
  | validated x successor =>
    obtain ⟨endpoint, token, user⟩ := x
    simp only [step]
    split_ifs
    · rfl
    · cases endpoint with
      | verify => rfl
      | refresh newJti retryJti => cases successor <;> rfl
  | rotating x access new retryJti =>
    simp only [step]
    split <;> rfl
  | recheckingFamily x access row => cases row <;> rfl
  | _ => rfl

theorem advance_users (hp : c.phase.invalidates ≠ some userId) :
    (s.advance cfg c).1.users userId = s.users userId := by
  rcases @advance_cases cfg s c with ⟨replies, heq⟩ | ⟨-, p, replies, heq, -⟩
  · rw [heq]
    exact step_users hp
  · rw [heq]
    rfl

/-! ### Admission -/

/-- The row of a user admits a token of a second. -/
def Admits (user : AuthUser) (iat : ℤ) : Prop :=
  user.isActive = true ∧ ¬IssuedBeforeCutoff user iat

instance (user : AuthUser) (iat : ℤ) : Decidable (Admits user iat) :=
  inferInstanceAs (Decidable (user.isActive = true ∧ ¬IssuedBeforeCutoff user iat))

/-- A request that goes on with its token has read a row that admits it. -/
theorem admits_of_reading {endpoint : Endpoint} {token : RefreshToken} {user : AuthUser}
    (h : (s.step cfg (.reading endpoint token)).2 = .probing ⟨endpoint, token, user⟩) :
    s.users token.sub = some user ∧ Admits user token.iat := by
  simp only [step] at h
  split_ifs at h
  split at h
  · next found hfound =>
    split_ifs at h with hactive hcutoff
    · cases h
    · cases h
      exact ⟨hfound, hactive, hcutoff⟩
  · cases h

/-- A token of the user that a request presents was minted. -/
def Signed (userId : ℕ) (s : AuthStore) (c : Call) : Prop :=
  ∀ token ∈ c.phase.reads, token.sub = userId → token ∈ s.issued

instance (userId : ℕ) (s : AuthStore) : DecidablePred (Signed userId s) :=
  fun c => inferInstanceAs
    (Decidable (∀ token ∈ c.phase.reads, token.sub = userId → token ∈ s.issued))

/-- The token of the user that a request has presented was minted, and the row that the request has
read admits it. -/
def Checked (userId : ℕ) (s : AuthStore) (p : AuthPhase) : Prop :=
  ∀ x ∈ p.presented, x.token.sub = userId → x.token ∈ s.issued ∧ Admits x.user x.token.iat

theorem Checked.mono {s' : AuthStore} (h : Checked userId s p) (hs : s.issued ⊆ s'.issued) :
    Checked userId s' p :=
  fun x hx hsub => ⟨hs (h x hx hsub).1, (h x hx hsub).2⟩

theorem checked_step (h : Checked userId s c.phase) (hok : Signed userId s c)
    (hs : s.issued ⊆ (s.step cfg c.phase).1.issued) :
    Checked userId (s.step cfg c.phase).1 (s.step cfg c.phase).2 := by
  intro x hx hsub
  rcases presented_step x hx with hx | ⟨hphase, hprobing⟩
  · exact ⟨hs (h x hx hsub).1, (h x hx hsub).2⟩
  · rw [hphase] at hprobing
    exact ⟨hs (hok x.token (by rw [hphase]; rfl) hsub), (admits_of_reading hprobing).2⟩

theorem checked_advance (h : Checked userId s c.phase) (hok : Signed userId s c) :
    ∀ c' ∈ (s.advance cfg c).2, Checked userId (s.advance cfg c).1 c'.phase := by
  intro c' hc'
  have hissued := @issued_subset_advance cfg s c
  rcases @advance_cases cfg s c with ⟨replies, heq⟩ | ⟨-, p, replies, heq, rfl | rfl⟩
  · rw [heq] at hc' hissued ⊢
    obtain rfl := Option.some.inj hc'
    exact checked_step h hok hissued
  · rw [heq] at hc' hissued ⊢
    obtain rfl := Option.some.inj hc'
    exact h.mono hissued
  · rw [heq] at hc'
    obtain rfl := Option.some.inj hc'
    exact fun x hx => by cases hx

/-! ### After the commit -/

/-- No token of the user in an older session that was minted is admitted by the row that is
stored. -/
structure Cut (userId : ℕ) (old : ℕ → Prop) (s : AuthStore) : Prop where
  issued : ∀ token ∈ s.issued, token.sub = userId → old token.sid →
    ∀ user ∈ s.users userId, ¬Admits user token.iat
  granted : ∀ token ∈ s.granted, token.sub = userId → old token.sid →
    ∀ user ∈ s.users userId, ¬Admits user token.iat

/-- A request in an older session whose next step may mint has read the row of the user that is
stored, or mints at a second that this row does not admit. -/
def ReadAgain (userId : ℕ) (old : ℕ → Prop) (s : AuthStore) (c : Call) : Prop :=
  ∀ x ∈ c.phase.minter, x.token.sub = userId → old x.token.sid →
    s.users userId = some x.user ∨ ∀ user ∈ s.users userId, ¬Admits user (secondOf s.clock)

instance (userId : ℕ) (old : ℕ → Prop) [DecidablePred old] (s : AuthStore) :
    DecidablePred (ReadAgain userId old s) :=
  fun c => inferInstanceAs (Decidable (∀ x ∈ c.phase.minter, x.token.sub = userId →
    old x.token.sid → s.users userId = some x.user ∨
      ∀ user ∈ s.users userId, ¬Admits user (secondOf s.clock)))

/-- After the commit nothing else invalidates the tokens of the user, a login opens a session with a
new id, and the tokens that are presented were minted. -/
def OneEvent (userId : ℕ) (old : ℕ → Prop) (s : AuthStore) (c : Call) : Prop :=
  Signed userId s c ∧ c.phase.invalidates ≠ some userId ∧ ∀ sid ∈ c.phase.opens, ¬old sid

instance (userId : ℕ) (old : ℕ → Prop) [DecidablePred old] (s : AuthStore) :
    DecidablePred (OneEvent userId old s) :=
  fun c => inferInstanceAs (Decidable (Signed userId s c ∧ c.phase.invalidates ≠ some userId ∧
    ∀ sid ∈ c.phase.opens, ¬old sid))

theorem minter_subset_presented : ∀ x ∈ p.minter, x ∈ p.presented := by
  intro x hx
  cases p with
  | rotating x' access new retryJti =>
    cases retryJti with
    | none => cases hx
    | some retryJti => exact hx
  | validated x' successor | minting x' access successor => exact hx
  | _ => cases hx

/-- A token is minted at the second of the clock, for a login or for a token presented. -/
theorem mints_minter : ∀ token ∈ s.mints cfg p, token.iat = secondOf s.clock ∧
    (token.sid ∈ p.opens ∨ ∃ x ∈ p.minter, token.sub = x.token.sub ∧ token.sid = x.token.sid) := by
  intro token ht
  cases p with
  | validated x successor =>
    obtain ⟨endpoint, presented, user⟩ := x
    cases endpoint with
    | verify => cases ht
    | refresh newJti retryJti =>
      cases successor with
      | none =>
        cases ht
        exact ⟨rfl, .inr ⟨_, rfl, rfl, rfl⟩⟩
      | some successor => cases ht
  | rotating x access new retryJti =>
    cases retryJti with
    | none => cases ht
    | some retryJti =>
      cases ht
      exact ⟨rfl, .inr ⟨_, rfl, rfl, rfl⟩⟩
  | opening userId jti sid =>
    cases ht
    exact ⟨rfl, .inl rfl⟩
  | minting x access successor =>
    cases ht
    exact ⟨rfl, .inr ⟨_, rfl, rfl, rfl⟩⟩
  | _ => cases ht

theorem grants_minter : ∀ token ∈ s.grants cfg p, token.iat = secondOf s.clock ∧
    (token.sid ∈ p.opens ∨ ∃ x ∈ p.minter, token.sub = x.token.sub ∧ token.sid = x.token.sid) := by
  intro token ht
  cases p with
  | opening userId jti sid =>
    cases ht
    exact ⟨rfl, .inl rfl⟩
  | validated x successor =>
    cases ht
    exact ⟨rfl, .inr ⟨_, rfl, rfl, rfl⟩⟩
  | _ => cases ht

/-- What a step mints in an older session the row does not admit: a request that has read the row
that is stored could not have gone on. -/
theorem not_admits_minted (hs : s.Cut userId old) (hc : Checked userId s c.phase)
    (hevent : OneEvent userId old s c) (hread : ReadAgain userId old s c) {sub sid : ℕ} {iat : ℤ}
    (hsub : sub = userId) (hold : old sid) (hiat : iat = secondOf s.clock)
    (hsource : sid ∈ c.phase.opens ∨
      ∃ x ∈ c.phase.minter, sub = x.token.sub ∧ sid = x.token.sid) :
    ∀ user ∈ s.users userId, ¬Admits user iat := by
  rcases hsource with hopens | ⟨x, hx, rfl, rfl⟩
  · exact absurd hold (hevent.2.2 sid hopens)
  · rcases hread x hx hsub hold with hrow | hout
    · obtain ⟨hissued, hadmits⟩ := hc x (minter_subset_presented x hx) hsub
      exact absurd hadmits (hs.issued x.token hissued hsub hold x.user hrow)
    · rw [hiat]
      exact hout

/-- A step mints no token of an older session that the row admits. -/
theorem cut_advance (hs : s.Cut userId old) (hc : Checked userId s c.phase)
    (hevent : OneEvent userId old s c) (hread : ReadAgain userId old s c) :
    (s.advance cfg c).1.Cut userId old := by
  have husers : (s.advance cfg c).1.users userId = s.users userId := advance_users hevent.2.1
  constructor
  · intro token ht hsub hold
    rw [husers]
    rcases @advance_issued cfg s c with h | ⟨new, hnew, h⟩
    · exact hs.issued token (h ▸ ht) hsub hold
    · rw [h] at ht
      rcases List.mem_append.mp ht with ht | ht
      · exact hs.issued token ht hsub hold
      · obtain rfl := List.mem_singleton.mp ht
        obtain ⟨hiat, hsource⟩ := mints_minter token hnew
        exact not_admits_minted hs hc hevent hread hsub hold hiat hsource
  · intro token ht hsub hold
    rw [husers]
    rcases @advance_granted cfg s c with h | ⟨new, hnew, h⟩
    · exact hs.granted token (h ▸ ht) hsub hold
    · rw [h] at ht
      rcases List.mem_append.mp ht with ht | ht
      · exact hs.granted token ht hsub hold
      · obtain rfl := List.mem_singleton.mp ht
        obtain ⟨hiat, hsource⟩ := grants_minter token hnew
        exact not_admits_minted hs hc hevent hread hsub hold hiat hsource

/-! ### The commit -/

/-- The cutoff that a commit stores is ahead of the tokens that were minted for the user so far, or
the commit deactivates the user. -/
def CutoffAhead (cfg : AuthSettings) (userId : ℕ) (change : Invalidation) (now : ℤ)
    (s : AuthStore) : Prop :=
  change = .deactivation ∨ ∀ user ∈ s.users userId,
    (∀ token ∈ s.issued, token.sub = userId →
      IssuedBeforeCutoff (change.apply cfg.store now user) token.iat) ∧
    ∀ token ∈ s.granted, token.sub = userId →
      IssuedBeforeCutoff (change.apply cfg.store now user) token.iat

instance (cfg : AuthSettings) (userId : ℕ) (change : Invalidation) (now : ℤ) (s : AuthStore) :
    Decidable (CutoffAhead cfg userId change now s) :=
  inferInstanceAs (Decidable (change = .deactivation ∨ ∀ user ∈ s.users userId,
    (∀ token ∈ s.issued, token.sub = userId →
      IssuedBeforeCutoff (change.apply cfg.store now user) token.iat) ∧
    ∀ token ∈ s.granted, token.sub = userId →
      IssuedBeforeCutoff (change.apply cfg.store now user) token.iat))

theorem cut_of_commit {change : Invalidation} {now : ℤ}
    (h : CutoffAhead cfg userId change now s) :
    (s.step cfg (.invalidating userId change now)).1.Cut userId old := by
  have husers : (s.step cfg (.invalidating userId change now)).1.users userId =
      (s.users userId).map fun user => change.apply cfg.store now user :=
    Function.update_self ..
  constructor
  · intro token ht hsub _ user huser hadmits
    rw [husers] at huser
    obtain ⟨before, hbefore, rfl⟩ := Option.mem_map.mp huser
    rcases h with rfl | h
    · cases hadmits.1
    · exact hadmits.2 ((h before hbefore).1 token ht hsub)
  · intro token ht hsub _ user huser hadmits
    rw [husers] at huser
    obtain ⟨before, hbefore, rfl⟩ := Option.mem_map.mp huser
    rcases h with rfl | h
    · cases hadmits.1
    · exact hadmits.2 ((h before hbefore).2 token ht hsub)

/-- The session was opened by the user. -/
def OpenedBy (userId : ℕ) (s : AuthStore) (sid : ℕ) : Prop :=
  ∃ token ∈ s.issued, token.sub = userId ∧ token.sid = sid

instance (userId : ℕ) (s : AuthStore) : DecidablePred (OpenedBy userId s) :=
  fun sid => inferInstanceAs (Decidable (∃ token ∈ s.issued, token.sub = userId ∧ token.sid = sid))

theorem checked_interleave (clock : ℤ) (users : ℕ → Option AuthUser)
    (ts : List (Turn (AuthRequest × List Reply)))
    (hts : (sessions cfg).Respects (Signed userId) ⟨{ clock, users }, []⟩ ts) :
    let before := (sessions cfg).interleave ⟨{ clock, users }, []⟩ ts
    ∀ c ∈ before.live, Checked userId before.shared c.phase := by
  refine (Sessions.interleave_local (I := fun _ => True)
    (J := fun s c => Checked userId s c.phase) (fun s r _ => ?_) (fun s c _ hc hok => ?_) ts trivial
    (by simp) hts).2
  · obtain ⟨r, replies⟩ := r
    exact fun x hx => by cases r <;> cases hx
  · exact ⟨trivial, checked_advance hc hok, fun q hq => hq.mono (issued_subset_advance s c)⟩

/-- A commit whose cutoff is ahead of what was minted before; then, in every run in which a request
in an older session that mints has read the row that is stored: no access token of a session that
was opened before the commit is accepted, and no refresh token of one gets past the row of the
user. -/
theorem invalidation_complete (cfg : AuthSettings) (userId : ℕ) (clock : ℤ)
    (users : ℕ → Option AuthUser) (ts ts' : List (Turn (AuthRequest × List Reply)))
    (hts : (sessions cfg).Respects (Signed userId) ⟨{ clock, users }, []⟩ ts) (k : ℕ)
    (change : Invalidation) (now : ℤ) (replies : List Reply)
    (hc : ((sessions cfg).interleave ⟨{ clock, users }, []⟩ ts).live[k]? =
      some ⟨.invalidating userId change now, replies⟩)
    (hcutoff : CutoffAhead cfg userId change now
      ((sessions cfg).interleave ⟨{ clock, users }, []⟩ ts).shared)
    (hts' : (sessions cfg).Respects
      (fun s c =>
        OneEvent userId (OpenedBy userId
          ((sessions cfg).interleave ⟨{ clock, users }, []⟩ ts).shared) s c ∧
        ReadAgain userId (OpenedBy userId
          ((sessions cfg).interleave ⟨{ clock, users }, []⟩ ts).shared) s c)
      ((sessions cfg).interleave ⟨{ clock, users }, []⟩ (ts ++ [.advance k])) ts') :
    let before := ((sessions cfg).interleave ⟨{ clock, users }, []⟩ ts).shared
    let after := ((sessions cfg).interleave ⟨{ clock, users }, []⟩ (ts ++ .advance k :: ts')).shared
    (∀ token ∈ after.granted, token.sub = userId → OpenedBy userId before token.sid →
      ¬AcceptsAccess after token) ∧
    ∀ token ∈ after.issued, token.sub = userId → OpenedBy userId before token.sid →
      ∀ endpoint user,
        (after.step cfg (.reading endpoint token)).2 ≠ .probing ⟨endpoint, token, user⟩ := by
  intro before after
  have hrun : (sessions cfg).interleave ⟨{ clock, users }, []⟩ (ts ++ .advance k :: ts') =
      (sessions cfg).interleave
        ((sessions cfg).interleave ⟨{ clock, users }, []⟩ (ts ++ [.advance k])) ts' := by
    rw [← Sessions.interleave_append, List.append_assoc]
    rfl
  have hchecked := checked_interleave clock users ts hts
  -- the commit
  have hcommit : (sessions cfg).interleave ⟨{ clock, users }, []⟩ (ts ++ [.advance k]) =
      ⟨(before.step cfg (.invalidating userId change now)).1,
        ((sessions cfg).interleave ⟨{ clock, users }, []⟩ ts).live.eraseIdx k ++
          [⟨.answered .done, replies⟩]⟩ := by
    rw [Sessions.interleave_append, Sessions.interleave_cons, Sessions.interleave_nil]
    simp only [Sessions.turn, hc]
    rfl
  rw [hcommit] at hts' hrun
  have hcut : after.Cut userId (OpenedBy userId before) := by
    show ((sessions cfg).interleave ⟨{ clock, users }, []⟩
      (ts ++ .advance k :: ts')).shared.Cut userId (OpenedBy userId before)
    rw [hrun]
    refine (Sessions.interleave_local (I := Cut userId (OpenedBy userId before))
      (J := fun s c => Checked userId s c.phase) (fun s r _ => ?_) (fun s c hs hc hok => ?_) ts'
      (cut_of_commit hcutoff) (fun c hc => ?_) hts').1
    · obtain ⟨r, replies⟩ := r
      exact fun x hx => by cases r <;> cases hx
    · exact ⟨cut_advance hs hc hok.1 hok.2, checked_advance hc hok.1.1,
        fun q hq => hq.mono (issued_subset_advance s c)⟩
    · rcases List.mem_append.mp hc with hc | hc
      · exact hchecked c (List.mem_of_mem_eraseIdx hc)
      · obtain rfl := List.mem_singleton.mp hc
        exact fun x hx => by cases hx
  refine ⟨fun token ht hsub hold haccepts => ?_, fun token ht hsub hold endpoint user hstep => ?_⟩
  · obtain ⟨-, user, huser, hadmits⟩ := haccepts
    rw [hsub] at huser
    exact hcut.granted token ht hsub hold user huser hadmits
  · obtain ⟨huser, hadmits⟩ := admits_of_reading hstep
    rw [hsub] at huser
    exact hcut.issued token ht hsub hold user huser hadmits

instance (s : AuthStore) (token : AccessToken) : Decidable (AcceptsAccess s token) :=
  inferInstanceAs (Decidable (s.clock < ofSeconds token.exp ∧
    ∃ user ∈ s.users token.sub, user.isActive = true ∧ ¬IssuedBeforeCutoff user token.iat))

/-! ### A refresh in flight -/

/-- A login; half a second later a refresh has read the row of the user; then a change of the
password has read the time. -/
def sampleInFlight : List (Turn (AuthRequest × List Reply)) :=
  [.start (.login 1 10 20, []), .advance 0, .advance 0, .start (.elapse 500000, []), .advance 1,
    .start (.refresh (sampleToken 10 20) 11 12, []), .advance 2,
    .start (.invalidate 1 .password, []), .advance 3]

/-- A second later the token is presented once more. -/
def sampleRetry : List (Turn (AuthRequest × List Reply)) :=
  [.start (.elapse 1000000, []), .advance 4, .start (.refresh (sampleToken 10 20) 13 14, []),
    .advance 5]

theorem invalidation_complete_of_sampleRetry :
    let after := ((sessions sampleSettings).interleave ⟨sampleAuth, []⟩
      (sampleInFlight ++ .advance 3 :: sampleRetry)).shared
    ∀ token ∈ after.granted, token.sub = 1 → token.sid = 20 → ¬AcceptsAccess after token := by
  intro after token ht hsub hsid
  refine (invalidation_complete sampleSettings 1 (ofSeconds 1000) sampleAuth.users sampleInFlight
    sampleRetry (by decide) 3 .password 1000500000 [] (by rfl) (by decide) (by decide)).1 token ht
    hsub ?_
  rw [hsid]
  decide

/-- The refresh in flight: a second later it goes on and mints its tokens. -/
def sampleCrossing : List (Turn (AuthRequest × List Reply)) :=
  [.start (.elapse 1000000, []), .advance 4, .advance 2, .advance 4, .advance 4]

/-- The access token of a refresh in flight is accepted. -/
theorem not_invalidation_complete_of_sampleInFlight :
    let before := (sessions sampleSettings).interleave ⟨sampleAuth, []⟩ sampleInFlight
    let after := ((sessions sampleSettings).interleave ⟨sampleAuth, []⟩
      (sampleInFlight ++ .advance 3 :: sampleCrossing)).shared
    (sessions sampleSettings).Respects (Signed 1) ⟨sampleAuth, []⟩ sampleInFlight ∧
      before.live[3]? = some ⟨.invalidating 1 .password 1000500000, []⟩ ∧
      CutoffAhead sampleSettings 1 .password 1000500000 before.shared ∧
      (sessions sampleSettings).Respects (OneEvent 1 (OpenedBy 1 before.shared))
        ((sessions sampleSettings).interleave ⟨sampleAuth, []⟩ (sampleInFlight ++ [.advance 3]))
        sampleCrossing ∧
      ∃ token ∈ after.granted, token.sub = 1 ∧ OpenedBy 1 before.shared token.sid ∧
        AcceptsAccess after token := by
  intro before after
  exact ⟨by decide, by rfl, by decide, by decide, by decide⟩

end AuthStore

end Pfv
