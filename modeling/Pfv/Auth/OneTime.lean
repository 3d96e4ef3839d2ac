import Pfv.Services.Credentials

/-!
# Credentials are used once

The check of a credential and the write that uses it up are separate steps, and only the nonce of an
emailed code is checked and used up in one. So a credential is used once, and a recovery code that
was used stays invalid, in every run in which a request finds the columns that it writes as it has
read them, and in which a reset comes after the second in which its token was issued. Two requests
that overlap, or a reset that is quick, break it.

## Main definitions

* `RowWrite.Fresh`: the columns that a request writes are as it has read them.
* `RowWrite.Checked`: what a request has checked about what it has read.
* `CredentialStore.OneTime`: what the row says of the credentials that were used.

## Main results

* `CredentialStore.oneTime_apply`: a checked and fresh write uses its credential up.
* `CredentialStore.successes_nodup`: every run of fresh writes uses every credential once.
* `CredentialStore.not_oneTime_of_samples`: overlapping requests, and a token used again within the
  second of its issue.
-/

namespace Pfv

/-- The columns that a write overwrites are as the request has read them, and the cutoff of a reset
lies after the second in which its token was issued. -/
def RowWrite.Fresh (store : ℤ → ℤ) (row : CredentialRow) : RowWrite → Prop
  | .recovery _ seen _ => row.recoveryCodes = seen.recoveryCodes
  | .reset iat seen now =>
      row.passwordChangedAt = seen.passwordChangedAt ∧ ofSeconds iat < store now
  | .password stepup seen _ =>
      row.passwordChangedAt = seen.passwordChangedAt ∧
        (stepup ≠ none → row.stepupToken = seen.stepupToken)
  | .email stepup seen _ => stepup ≠ none → row.stepupToken = seen.stepupToken

instance (store : ℤ → ℤ) (row : CredentialRow) : ∀ w : RowWrite, Decidable (w.Fresh store row)
  | .recovery .. => inferInstanceAs (Decidable (_ = _))
  | .reset .. => inferInstanceAs (Decidable (_ ∧ _))
  | .password .. => inferInstanceAs (Decidable (_ ∧ (_ → _)))
  | .email .. => inferInstanceAs (Decidable (_ → _))

/-- What a request has checked about the row that it has read, at a moment after that. -/
def RowWrite.Checked (store : ℤ → ℤ) (clock : ℤ) : RowWrite → Prop
  | .recovery hash seen rest =>
      ∃ i, seen.recoveryCodes[i]? = some hash ∧ rest = seen.recoveryCodes.eraseIdx i
  | .reset iat seen now => ResetAdmits seen iat ∧ now ≤ clock
  | .password stepup seen now =>
      (∀ token ∈ stepup, seen.stepupToken = some token) ∧ now ≤ clock ∧
        ∀ cutoff ∈ seen.passwordChangedAt, cutoff ≤ store now
  | .email stepup seen _ => ∀ token ∈ stepup, seen.stepupToken = some token

theorem clearStepup_passwordChangedAt (row : CredentialRow) (stepup : Option String) :
    (clearStepup row stepup).passwordChangedAt = row.passwordChangedAt := by
  cases stepup <;> rfl

theorem clearStepup_recoveryCodes (row : CredentialRow) (stepup : Option String) :
    (clearStepup row stepup).recoveryCodes = row.recoveryCodes := by
  cases stepup <;> rfl

theorem clearStepup_stepupToken_of_none {row : CredentialRow} (h : row.stepupToken = none)
    (stepup : Option String) : (clearStepup row stepup).stepupToken = none := by
  cases stepup
  · exact h
  · rfl

theorem verifyRecoveryCode_getElem? {candidate : String} :
    ∀ {hashes : List String} {i : ℕ}, verifyRecoveryCode candidate hashes = some i →
      hashes[i]? = some candidate
  | [], i, h => by cases h
  | stored :: rest, i, h => by
      unfold verifyRecoveryCode at h
      split at h
      · next j hj =>
        obtain rfl := Option.some.inj h
        rw [List.getElem?_cons_succ]
        exact verifyRecoveryCode_getElem? hj
      · split_ifs at h with heq
        obtain rfl := Option.some.inj h
        rw [List.getElem?_cons_zero, heq]

/-- The step-up token that a proof uses up is the one stored. -/
theorem stepupToken_of_proofOf {row : CredentialRow} {proof : Proof} {now : ℤ}
    {stepup : Option String} (h : proofOf row proof now = some stepup) :
    ∀ token ∈ stepup, row.stepupToken = some token := by
  unfold proofOf at h
  split_ifs at h
  · obtain rfl := Option.some.inj h
    rintro _ ⟨⟩
  · split at h
    · split_ifs at h with hadmits
      obtain rfl := Option.some.inj h
      rintro _ ⟨⟩
      exact hadmits.2.1
    · cases h

namespace CredentialStore

/-- What the row and Redis say of the credentials that have authorised a success: a recovery code
and a nonce are not stored any more, a reset token was issued before the cutoff, the step-up token
was cleared. No credential has authorised two. -/
structure OneTime (store : ℤ → ℤ) (s : CredentialStore) : Prop where
  codes : s.row.recoveryCodes.Nodup
  code : ∀ hash, .recoveryCode hash ∈ s.successes → hash ∉ s.row.recoveryCodes
  nonce : ∀ jti, .emailNonce jti ∈ s.successes → jti ∉ s.nonces
  reset : ∀ iat, .resetToken iat ∈ s.successes →
    ∃ cutoff ∈ s.row.passwordChangedAt, ofSeconds iat < cutoff
  stepup : ∀ token, .stepupToken token ∈ s.successes → s.row.stepupToken = none
  past : ∀ cutoff ∈ s.row.passwordChangedAt, cutoff ≤ store s.clock
  once : s.successes.Nodup

variable {store : ℤ → ℤ} {s : CredentialStore} {row : CredentialRow}

theorem nodup_concat {l : List Credential} {c : Credential} (hl : l.Nodup) (hc : c ∉ l) :
    (l ++ [c]).Nodup :=
  hl.append (List.nodup_singleton c) (List.disjoint_singleton.mpr hc)

theorem mem_concat {l : List Credential} {c d : Credential} (h : d ∈ l ++ [c]) (hne : d ≠ c) :
    d ∈ l :=
  (List.mem_append.mp h).resolve_right fun h => hne (List.mem_singleton.mp h)

/-! ### One write -/

/-- A recovery code that is still stored when its use is written is used for the first time. -/
theorem oneTime_recovery (hs : s.OneTime store) {i : ℕ} {hash : String}
    (hi : s.row.recoveryCodes[i]? = some hash) :
    ({ s with
      row := { s.row with recoveryCodes := s.row.recoveryCodes.eraseIdx i }, locked := false
      successes := s.successes ++ [.recoveryCode hash] } : CredentialStore).OneTime store := by
  have hmem : hash ∈ s.row.recoveryCodes := List.mem_of_getElem? hi
  have hsub : ∀ h ∈ s.row.recoveryCodes.eraseIdx i, h ∈ s.row.recoveryCodes :=
    fun h hh => List.mem_of_mem_eraseIdx hh
  have hgone : hash ∉ s.row.recoveryCodes.eraseIdx i := by
    obtain ⟨hlt, rfl⟩ := List.getElem?_eq_some_iff.mp hi
    have hperm := List.getElem_cons_eraseIdx_perm hlt
    exact (List.nodup_cons.mp (hperm.nodup_iff.mpr hs.codes)).1
  refine ⟨hs.codes.sublist (List.eraseIdx_sublist _ _), fun h hh => ?_, fun jti hjti => ?_,
    fun iat hiat => ?_, fun token htoken => ?_, hs.past, ?_⟩
  · by_cases hne : h = hash
    · exact hne ▸ hgone
    · exact fun hh' => hs.code h (mem_concat hh (by simpa using hne)) (hsub h hh')
  · exact hs.nonce jti (mem_concat hjti (by simp))
  · exact hs.reset iat (mem_concat hiat (by simp))
  · exact hs.stepup token (mem_concat htoken (by simp))
  · exact nodup_concat hs.once fun h => hs.code hash h hmem

/-- A new cutoff in the past, after the old one, leaves every used reset token before it. -/
theorem oneTime_cutoff (hs : s.OneTime store) {now : ℤ} (hpast : store now ≤ store s.clock)
    (hle : ∀ cutoff ∈ s.row.passwordChangedAt, cutoff ≤ store now) (stepup : Option String) :
    ({ s with
      row := { clearStepup s.row stepup with
        passwordSet := true, passwordChangedAt := some (store now) }
      locked := false } : CredentialStore).OneTime store where
  codes := by
    show (clearStepup s.row stepup).recoveryCodes.Nodup
    rw [clearStepup_recoveryCodes]
    exact hs.codes
  code hash hhash := by
    show hash ∉ (clearStepup s.row stepup).recoveryCodes
    rw [clearStepup_recoveryCodes]
    exact hs.code hash hhash
  nonce := hs.nonce
  reset iat hiat := by
    obtain ⟨cutoff, hcutoff, hlt⟩ := hs.reset iat hiat
    exact ⟨store now, rfl, hlt.trans_le (hle cutoff hcutoff)⟩
  stepup token htoken := clearStepup_stepupToken_of_none (hs.stepup token htoken) stepup
  past cutoff hcutoff := Option.some.inj hcutoff ▸ hpast
  once := hs.once

/-- A new address. -/
theorem oneTime_email (hs : s.OneTime store) (stepup : Option String) (newEmail : String) :
    ({ s with
      row := { clearStepup s.row stepup with email := newEmail }
      locked := false } : CredentialStore).OneTime store where
  codes := by
    show (clearStepup s.row stepup).recoveryCodes.Nodup
    rw [clearStepup_recoveryCodes]
    exact hs.codes
  code hash hhash := by
    show hash ∉ (clearStepup s.row stepup).recoveryCodes
    rw [clearStepup_recoveryCodes]
    exact hs.code hash hhash
  nonce := hs.nonce
  reset iat hiat := by
    show ∃ cutoff ∈ (clearStepup s.row stepup).passwordChangedAt, ofSeconds iat < cutoff
    rw [clearStepup_passwordChangedAt]
    exact hs.reset iat hiat
  stepup token htoken := clearStepup_stepupToken_of_none (hs.stepup token htoken) stepup
  past cutoff hcutoff := by
    refine hs.past cutoff ?_
    rw [← clearStepup_passwordChangedAt s.row stepup]
    exact hcutoff
  once := hs.once

/-- A success of a reset token that was issued before the cutoff and had not been used. -/
theorem OneTime.resetToken (hs : s.OneTime store) {iat : ℤ}
    (hnew : .resetToken iat ∉ s.successes)
    (hlt : ∃ cutoff ∈ s.row.passwordChangedAt, ofSeconds iat < cutoff) :
    ({ s with successes := s.successes ++ [.resetToken iat] } : CredentialStore).OneTime store where
  codes := hs.codes
  code hash hhash := hs.code hash (mem_concat hhash (by simp))
  nonce jti hjti := hs.nonce jti (mem_concat hjti (by simp))
  reset iat' hiat' := by
    by_cases hne : iat' = iat
    · exact hne ▸ hlt
    · exact hs.reset iat' (mem_concat hiat' (by simpa using hne))
  stepup token htoken := hs.stepup token (mem_concat htoken (by simp))
  past := hs.past
  once := nodup_concat hs.once hnew

/-- A success of a step-up token that is cleared and had not been used. -/
theorem OneTime.stepupToken (hs : s.OneTime store) {token : String}
    (hnew : .stepupToken token ∉ s.successes) (hclear : s.row.stepupToken = none) :
    ({ s with successes := s.successes ++ [.stepupToken token] } : CredentialStore).OneTime
      store where
  codes := hs.codes
  code hash hhash := hs.code hash (mem_concat hhash (by simp))
  nonce jti hjti := hs.nonce jti (mem_concat hjti (by simp))
  reset iat hiat := hs.reset iat (mem_concat hiat (by simp))
  stepup _ _ := hclear
  past := hs.past
  once := nodup_concat hs.once hnew

/-- A success of a nonce that is deleted and had not been used. -/
theorem OneTime.emailNonce (hs : s.OneTime store) {jti : String}
    (hnew : .emailNonce jti ∉ s.successes) (hgone : jti ∉ s.nonces) :
    ({ s with successes := s.successes ++ [.emailNonce jti] } : CredentialStore).OneTime store where
  codes := hs.codes
  code hash hhash := hs.code hash (mem_concat hhash (by simp))
  nonce jti' hjti' := by
    by_cases hne : jti' = jti
    · exact hne ▸ hgone
    · exact hs.nonce jti' (mem_concat hjti' (by simpa using hne))
  reset iat hiat := hs.reset iat (mem_concat hiat (by simp))
  stepup token htoken := hs.stepup token (mem_concat htoken (by simp))
  past := hs.past
  once := nodup_concat hs.once hnew

/-- A step-up token that is still stored has not been used. -/
theorem not_mem_of_stepupToken (hs : s.OneTime store) {token : String}
    (h : s.row.stepupToken = some token) : .stepupToken token ∉ s.successes := by
  intro hmem
  rw [hs.stepup token hmem] at h
  cases h

/-- A checked write of columns that are as they were read uses its credential up. -/
theorem oneTime_apply (hstore : Monotone store) (hs : s.OneTime store) {w : RowWrite}
    (hw : w.Checked store s.clock) (hfresh : w.Fresh store s.row) :
    ({ s with
      row := w.apply store s.row, locked := false
      successes := s.successes ++ w.credential.toList } : CredentialStore).OneTime store := by
  cases w with
  | recovery hash seen rest =>
    obtain ⟨i, hi, rfl⟩ := hw
    have hseen : s.row.recoveryCodes = seen.recoveryCodes := hfresh
    rw [← hseen] at hi ⊢
    exact oneTime_recovery hs hi
  | reset iat seen now =>
    obtain ⟨hadmits, hnow⟩ := hw
    obtain ⟨hseen, hlt⟩ := hfresh
    have hle : ∀ cutoff ∈ s.row.passwordChangedAt, cutoff ≤ ofSeconds iat := by
      rw [hseen]
      exact hadmits
    have hnew : .resetToken iat ∉ s.successes := by
      intro hmem
      obtain ⟨cutoff, hcutoff, hlt'⟩ := hs.reset iat hmem
      exact absurd hlt' (hle cutoff hcutoff).not_gt
    have hcut := oneTime_cutoff hs (hstore hnow)
      (fun cutoff hcutoff => (hle cutoff hcutoff).trans hlt.le) none
    exact hcut.resetToken hnew ⟨store now, rfl, hlt⟩
  | password stepup seen now =>
    obtain ⟨htoken, hnow, hpast⟩ := hw
    obtain ⟨hseen, hstepup⟩ := hfresh
    have hcut := oneTime_cutoff hs (hstore hnow) (by rwa [hseen]) stepup
    cases stepup with
    | none => simpa [RowWrite.apply, RowWrite.credential] using hcut
    | some token =>
      have hstored : s.row.stepupToken = some token :=
        (hstepup (Option.some_ne_none token)).trans (htoken token rfl)
      exact hcut.stepupToken (not_mem_of_stepupToken hs hstored) rfl
  | email stepup seen newEmail =>
    have hmail := oneTime_email hs stepup newEmail
    cases stepup with
    | none => simpa [RowWrite.apply, RowWrite.credential] using hmail
    | some token =>
      have hstored : s.row.stepupToken = some token :=
        (hfresh (Option.some_ne_none token)).trans (hw token rfl)
      exact hmail.stepupToken (not_mem_of_stepupToken hs hstored) rfl

/-! ### Every run -/

/-- What a request carries from one step to the next. -/
def Carries (store : ℤ → ℤ) (s : CredentialStore) : CredentialPhase → Prop
  | .reading _ => True
  | .flushing _ w => w.Checked store s.clock
  | .issuing _ w => w.Checked store s.clock
  | .resetting iat seen => ResetAdmits seen iat
  | .changing stepup seen =>
      (∀ token ∈ stepup, seen.stepupToken = some token) ∧
        ∀ cutoff ∈ seen.passwordChangedAt, cutoff ≤ store s.clock
  | .committing _ w => w.Checked store s.clock
  | .consuming _ _ => True
  | .answering jti _ => jti ∉ s.nonces ∧ .emailNonce jti ∉ s.successes

/-- No two requests have used up one nonce. -/
def Apart (p q : CredentialPhase) : Prop :=
  ∀ jti b b', ¬(p = .answering jti b ∧ q = .answering jti b')

theorem Apart.symm {p q : CredentialPhase} (h : Apart p q) : Apart q p :=
  fun jti b b' hpq => h jti b' b hpq.symm

theorem apart_of_ne {p : CredentialPhase} (h : ∀ jti b, p ≠ .answering jti b)
    (q : CredentialPhase) : Apart q p :=
  fun jti _ b' hqp => h jti b' hqp.2

theorem RowWrite.Checked.mono {clock clock' : ℤ} {w : RowWrite} (h : w.Checked store clock)
    (hle : clock ≤ clock') : w.Checked store clock' := by
  cases w with
  | recovery hash seen rest => exact h
  | reset iat seen now => exact ⟨h.1, h.2.trans hle⟩
  | password stepup seen now => exact ⟨h.1, h.2.1.trans hle, h.2.2⟩
  | email stepup seen newEmail => exact h

/-- A request carries on while the clock goes forward, nonces go and no nonce is used. -/
theorem Carries.mono (hstore : Monotone store) {s' : CredentialStore} {p : CredentialPhase}
    (h : Carries store s p) (hclock : s.clock ≤ s'.clock)
    (hnonces : ∀ jti ∈ s'.nonces, jti ∈ s.nonces)
    (hsuccesses : ∀ jti, .emailNonce jti ∈ s'.successes → .emailNonce jti ∈ s.successes) :
    Carries store s' p := by
  cases p with
  | reading r => trivial
  | flushing redis w => exact RowWrite.Checked.mono h hclock
  | issuing redis w => exact RowWrite.Checked.mono h hclock
  | resetting iat seen => exact h
  | changing stepup seen =>
    exact ⟨h.1, fun cutoff hcutoff => (h.2 cutoff hcutoff).trans (hstore hclock)⟩
  | committing own w => exact RowWrite.Checked.mono h hclock
  | consuming jti redis => trivial
  | answering jti redis =>
    exact ⟨fun hjti => h.1 (hnonces jti hjti), fun hjti => h.2 (hsuccesses jti hjti)⟩

/-- What a step keeps: the store, what the request carries on with, and the other requests. -/
def Kept (store : ℤ → ℤ) (s : CredentialStore) (p : CredentialPhase)
    (next : CredentialStore × Option CredentialPhase) : Prop :=
  next.1.OneTime store ∧ (∀ p' ∈ next.2, Carries store next.1 p') ∧
    ∀ q, Carries store s q → Apart q p →
      Carries store next.1 q ∧ ∀ p' ∈ next.2, Apart q p'

theorem kept_end {p : CredentialPhase} (hs : s.OneTime store) : Kept store s p (s, none) :=
  ⟨hs, by simp, fun q hq _ => ⟨hq, by simp⟩⟩

theorem kept_next {p p' : CredentialPhase} (hs : s.OneTime store) (hp' : Carries store s p')
    (hne : ∀ jti b, p' ≠ .answering jti b) : Kept store s p (s, some p') := by
  refine ⟨hs, fun p'' h => ?_, fun q hq _ => ⟨hq, fun p'' h => ?_⟩⟩
  · exact Option.some.inj h ▸ hp'
  · exact Option.some.inj h ▸ apart_of_ne hne q

theorem kept_read (hashRecoveryCode : String → String) (hstore : Monotone store)
    (hs : s.OneTime store) (r : CredentialRequest) :
    Kept store s (.reading r) (s.read hashRecoveryCode r) := by
  cases r with
  | mfaRecovery code redis =>
    simp only [read]
    split_ifs
    · split
      · next i hi =>
        refine kept_next hs ?_ (by simp)
        exact ⟨i, verifyRecoveryCode_getElem? hi, rfl⟩
      · exact kept_end hs
    · exact kept_end hs
  | mfaEmailVerify jti codeMatches redis =>
    simp only [read]
    split_ifs
    · exact kept_next hs trivial (by simp)
    · exact kept_end hs
  | resetPassword iat =>
    simp only [read]
    split_ifs with hadmits
    · exact kept_next hs hadmits.2.2 (by simp)
    · exact kept_end hs
  | changePassword proof =>
    simp only [read]
    split
    · next stepup hstepup =>
      exact kept_next hs ⟨stepupToken_of_proofOf hstepup, hs.past⟩ (by simp)
    · exact kept_end hs
  | updateProfile newEmail emailTaken proof =>
    simp only [read]
    split_ifs
    · exact kept_end hs
    · split <;> exact kept_end hs
    · split
      · next stepup hstepup =>
        exact kept_next hs (stepupToken_of_proofOf hstepup) (by simp)
      · exact kept_end hs
  | elapse ticks =>
    have hle : s.clock ≤ s.clock + ticks := by simp
    refine ⟨⟨hs.codes, hs.code, hs.nonce, hs.reset, hs.stepup,
      fun cutoff hcutoff => (hs.past cutoff hcutoff).trans (hstore hle), hs.once⟩, by simp [read],
      fun q hq _ => ⟨hq.mono hstore hle (fun _ h => h) fun _ h => h, by simp [read]⟩⟩
  | expireNonce jti =>
    have hsub : ∀ j ∈ s.nonces.filter (· ≠ jti), j ∈ s.nonces :=
      fun j hj => List.mem_of_mem_filter hj
    exact ⟨⟨hs.codes, hs.code, fun j hj hmem => hs.nonce j hj (hsub j hmem), hs.reset, hs.stepup,
      hs.past, hs.once⟩, by simp [read],
      fun q hq _ => ⟨hq.mono hstore le_rfl hsub fun _ h => h, by simp [read]⟩⟩

/-- A commit writes what its request has read. -/
def CommitsFresh (store : ℤ → ℤ) (s : CredentialStore) : CredentialPhase → Prop
  | .committing own w => ¬(s.locked = true ∧ own = false) → w.Fresh store s.row
  | _ => True

instance (store : ℤ → ℤ) (s : CredentialStore) :
    ∀ p : CredentialPhase, Decidable (CommitsFresh store s p)
  | .committing own w =>
      inferInstanceAs (Decidable (¬(s.locked = true ∧ own = false) → w.Fresh store s.row))
  | .reading _ | .flushing _ _ | .issuing _ _ | .resetting _ _ | .changing _ _ | .consuming _ _
  | .answering _ _ => .isTrue trivial

theorem kept_commit (hstore : Monotone store) (hs : s.OneTime store) {own : Bool} {w : RowWrite}
    (hw : w.Checked store s.clock) (hfresh : w.Fresh store s.row) :
    Kept store s (.committing own w)
      ({ s with
        row := w.apply store s.row, locked := false
        successes := s.successes ++ w.credential.toList }, none) := by
  refine ⟨oneTime_apply hstore hs hw hfresh, by simp, fun q hq _ => ⟨?_, by simp⟩⟩
  refine hq.mono hstore le_rfl (fun _ h => h) fun jti hjti => ?_
  refine (List.mem_append.mp hjti).resolve_right fun hjti => ?_
  cases w with
  | recovery hash seen rest => simp [RowWrite.credential] at hjti
  | reset iat seen now => simp [RowWrite.credential] at hjti
  | password stepup seen now => cases stepup <;> simp [RowWrite.credential] at hjti
  | email stepup seen newEmail => cases stepup <;> simp [RowWrite.credential] at hjti

theorem kept_advance (hashRecoveryCode : String → String) (hstore : Monotone store)
    (hs : s.OneTime store) {p : CredentialPhase} (hp : Carries store s p)
    (hfresh : CommitsFresh store s p) : Kept store s p (s.advance hashRecoveryCode store p) := by
  have hunlocked (b : Bool) : ({ s with locked := b } : CredentialStore).OneTime store :=
    ⟨hs.codes, hs.code, hs.nonce, hs.reset, hs.stepup, hs.past, hs.once⟩
  have hcarries (b : Bool) (q : CredentialPhase) (hq : Carries store s q) :
      Carries store { s with locked := b } q :=
    hq.mono hstore le_rfl (fun _ h => h) fun _ h => h
  cases p with
  | reading r => exact kept_read hashRecoveryCode hstore hs r
  | flushing redis w =>
    simp only [advance]
    split_ifs
    · exact kept_next hs hp (by simp)
    · refine ⟨hunlocked true, ?_, fun q hq _ => ⟨hcarries true q hq, ?_⟩⟩
      · rintro _ ⟨⟩
        exact hp
      · rintro _ ⟨⟩
        exact apart_of_ne (by simp) q
  | issuing redis w =>
    simp only [advance]
    split_ifs
    · exact kept_next hs hp (by simp)
    · exact ⟨hunlocked false, by simp, fun q hq _ => ⟨hcarries false q hq, by simp⟩⟩
  | resetting iat seen =>
    exact kept_next hs ⟨hp, le_rfl⟩ (by simp)
  | changing stepup seen =>
    exact kept_next hs ⟨hp.1, le_rfl, hp.2⟩ (by simp)
  | committing own w =>
    simp only [advance]
    split_ifs with hwait
    · exact kept_next hs hp (by simp)
    · exact kept_commit hstore hs hp (hfresh hwait)
  | consuming jti redis =>
    simp only [advance]
    split_ifs with hjti
    · have hsub : ∀ j ∈ s.nonces.filter (· ≠ jti), j ∈ s.nonces :=
        fun j hj => List.mem_of_mem_filter hj
      refine ⟨⟨hs.codes, hs.code, fun j hj hmem => hs.nonce j hj (hsub j hmem), hs.reset, hs.stepup,
        hs.past, hs.once⟩, ?_, fun q hq _ => ⟨hq.mono hstore le_rfl hsub fun _ h => h, ?_⟩⟩
      · rintro _ ⟨⟩
        exact ⟨by simp, fun hused => hs.nonce jti hused hjti⟩
      · rintro _ ⟨⟩ j b b' ⟨rfl, heq⟩
        -- a request that has used the nonce up finds it gone
        obtain ⟨rfl, -⟩ := CredentialPhase.answering.inj heq
        exact hq.1 hjti
    · exact kept_end hs
  | answering jti redis =>
    simp only [advance]
    split_ifs
    · refine ⟨hs.emailNonce hp.2 hp.1, by simp, fun q hq hqp => ⟨?_, by simp⟩⟩
      by_cases hsame : ∃ b, q = .answering jti b
      · obtain ⟨b, rfl⟩ := hsame
        exact absurd ⟨rfl, rfl⟩ (hqp jti b redis)
      · cases q with
        | answering j b =>
          refine ⟨hq.1, fun hmem => hq.2 (mem_concat hmem ?_)⟩
          rintro ⟨⟩
          exact hsame ⟨b, rfl⟩
        | _ => exact hq
    · exact kept_end hs

/-- In every run in which every commit writes columns as its request has read them, and every reset
a cutoff after the second in which its token was issued, every credential authorises at most one
success and a recovery code that was used is not stored any more. -/
theorem successes_nodup (hashRecoveryCode : String → String) (store : ℤ → ℤ)
    (hstore : Monotone store) (clock : ℤ) (row : CredentialRow) (nonces : List String)
    (hcodes : row.recoveryCodes.Nodup)
    (hpast : ∀ cutoff ∈ row.passwordChangedAt, cutoff ≤ store clock)
    (ts : List (Turn CredentialRequest))
    (hts : (sessions hashRecoveryCode store).Respects (CommitsFresh store)
      ⟨{ clock, row, nonces }, []⟩ ts) :
    let s := ((sessions hashRecoveryCode store).interleave ⟨{ clock, row, nonces }, []⟩ ts).shared
    s.successes.Nodup ∧
      ∀ hash, .recoveryCode hash ∈ s.successes → hash ∉ s.row.recoveryCodes := by
  intro s
  have hstart : ({ clock, row, nonces } : CredentialStore).OneTime store :=
    ⟨hcodes, by simp, by simp, by simp, by simp, hpast, List.nodup_nil⟩
  have h : s.OneTime store := by
    refine (Sessions.interleave_pairwise (I := fun s : CredentialStore => s.OneTime store)
      (J := Carries store) (K := Apart) Apart.symm (fun s r _ => ?_) (fun r q => ?_)
      (fun s p hs hp hok => ?_) ts hstart (by simp) List.Pairwise.nil hts).1
    · show Carries store s (.reading r)
      trivial
    · exact apart_of_ne (fun jti b h => by cases h) q
    · exact kept_advance hashRecoveryCode hstore hs hp hok
  exact ⟨h.once, h.code⟩

/-! ### Overlapping requests -/

/-- A column that keeps whole seconds. -/
def sampleStore (t : ℤ) : ℤ := ofSeconds ((t + 500000) / 1000000)

theorem sampleStore_mono : Monotone sampleStore := by
  intro a b hab
  show (a + 500000) / 1000000 * 1000000 ≤ (b + 500000) / 1000000 * 1000000
  omega

/-- A user with two recovery codes. -/
def sampleUser : CredentialRow where
  email := "a@b.c"
  recoveryCodes := ["x", "y"]

/-- A user without a password, with a step-up token. -/
def sampleStepupUser : CredentialRow where
  email := "a@b.c"
  passwordSet := false
  stepupToken := some "t"
  stepupTokenExpiresAt := some (ofSeconds 2000)

/-- The store after a run of requests of a user, a third of a second after the second 1000. -/
def afterSample (row : CredentialRow) (ts : List (Turn CredentialRequest)) : CredentialStore :=
  ((sessions id sampleStore).interleave
    ⟨{ clock := ofSeconds 1000 + 300000, row, nonces := ["n"] }, []⟩ ts).shared

/-- Two requests one after the other, the first with a recovery code. -/
def sampleSerial : List (Turn CredentialRequest) :=
  [.start (.mfaRecovery "x" true), .advance 0, .advance 0, .advance 0, .advance 0,
    .start (.resetPassword 999), .advance 0, .advance 0, .advance 0]

/-- Two second factors that both read before one writes. -/
def sampleOverlap (code code' : String) : List (Turn CredentialRequest) :=
  [.start (.mfaRecovery code true), .start (.mfaRecovery code' true), .advance 0, .advance 0,
    .advance 0, .advance 1, .advance 1, .advance 0, .advance 0, .advance 0]

theorem successes_nodup_of_sampleSerial :
    (afterSample sampleUser sampleSerial).successes = [.recoveryCode "x", .resetToken 999] ∧
      (afterSample sampleUser sampleSerial).successes.Nodup :=
  ⟨by decide, (successes_nodup id sampleStore sampleStore_mono (ofSeconds 1000 + 300000) sampleUser
    ["n"] (by decide) (by simp [sampleUser]) sampleSerial (by decide)).1⟩

/-- Two requests that overlap both succeed with one recovery code; with two codes the one that was
used first is valid again; a reset token is used twice within the second of its issue; and two
changes of the password use one step-up token. -/
theorem not_oneTime_of_samples :
    (afterSample sampleUser (sampleOverlap "x" "x")).successes =
        [.recoveryCode "x", .recoveryCode "x"] ∧
      (.recoveryCode "x" ∈ (afterSample sampleUser (sampleOverlap "x" "y")).successes ∧
        "x" ∈ (afterSample sampleUser (sampleOverlap "x" "y")).row.recoveryCodes) ∧
      (afterSample sampleUser
        [.start (.resetPassword 1000), .advance 0, .advance 0, .advance 0,
          .start (.resetPassword 1000), .advance 0, .advance 0, .advance 0]).successes =
        [.resetToken 1000, .resetToken 1000] ∧
      (afterSample sampleStepupUser
        [.start (.changePassword ⟨false, some "t"⟩), .start (.changePassword ⟨false, some "t"⟩),
          .advance 0, .advance 0, .advance 0, .advance 0, .advance 0, .advance 0]).successes =
        [.stepupToken "t", .stepupToken "t"] := by
  decide

end CredentialStore

end Pfv
