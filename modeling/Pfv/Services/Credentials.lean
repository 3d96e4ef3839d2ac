import Pfv.Base.Session

/-!
# One-time credentials

The requests that consume a credential of one user: a recovery code or an emailed code in the second
step of a login and a reset token (`backend/app/routers/auth.py`), and the step-up token of a user
without a password (`backend/app/routers/users.py`).

A request reads the row of the user without a lock and checks the credential against what it read.
It writes the columns that it changed, by the primary key, and commits; the second factor by a
recovery code writes before it stores the new session and keeps the lock of the row up to its
commit. The nonce of an emailed code is deleted in Redis in one step.

A time is in microseconds, a token carries the whole second of its issue, and the columns keep a
time with less precision in a way that is a parameter. The stored recovery codes are hexadecimal
digests, so the column that joins them by commas is a list.

## Main definitions

* `CredentialRow`, `CredentialStore`: the row of the user, and the nonces with the clock.
* `RowWrite`: what a request writes into the row.
* `CredentialStore.sessions`: the requests in steps.
-/

namespace Pfv

/-- The columns of a user that the requests check or write. -/
structure CredentialRow where
  isActive : Bool := true
  mfaEnabled : Bool := true
  email : String
  passwordSet : Bool := true
  recoveryCodes : List String := []
  passwordChangedAt : Option ℤ := none
  stepupToken : Option String := none
  stepupTokenExpiresAt : Option ℤ := none
  deriving DecidableEq

/-- A credential that authorises one success. -/
inductive Credential
  | recoveryCode (hash : String)
  | emailNonce (jti : String)
  | resetToken (iat : ℤ)
  | stepupToken (token : String)
  deriving DecidableEq

/-- The proof of presence of a request: whether the current password is right, and the step-up token
that it carries. -/
structure Proof where
  passwordOk : Bool
  stepupToken : Option String
  deriving DecidableEq

/-- A request, time that passes or a nonce that expires. The flag `redis` says whether Redis takes
the new session, `codeMatches` whether the emailed code is right, `emailTaken` whether another user
has the address. -/
inductive CredentialRequest
  | mfaRecovery (code : String) (redis : Bool)
  | mfaEmailVerify (jti : String) (codeMatches redis : Bool)
  | resetPassword (iat : ℤ)
  | changePassword (proof : Proof)
  | updateProfile (newEmail : String) (emailTaken : Bool) (proof : Proof)
  | elapse (ticks : ℕ)
  | expireNonce (jti : String)

/-- A microsecond count of a whole second. -/
def ofSeconds (t : ℤ) : ℤ := t * 1000000

/-- The time to live of a reset token, in microseconds. -/
def resetTtl : ℤ := ofSeconds 3600

/-! ### Checks -/

/-- `verify_recovery_code`: the last position of a digest. -/
def verifyRecoveryCode (candidate : String) : List String → Option ℕ
  | [] => none
  | stored :: rest =>
      match verifyRecoveryCode candidate rest with
      | some i => some (i + 1)
      | none => if candidate = stored then some 0 else none

/-- A reset token was not issued before the last change of the password. -/
def ResetAdmits (row : CredentialRow) (iat : ℤ) : Prop :=
  ∀ cutoff ∈ row.passwordChangedAt, cutoff ≤ ofSeconds iat

instance (row : CredentialRow) (iat : ℤ) : Decidable (ResetAdmits row iat) :=
  inferInstanceAs (Decidable (∀ cutoff ∈ row.passwordChangedAt, cutoff ≤ ofSeconds iat))

/-- A step-up token is the one stored, and that has not expired. -/
def StepupAdmits (row : CredentialRow) (token : String) (now : ℤ) : Prop :=
  token ≠ "" ∧ row.stepupToken = some token ∧ ∃ expiry ∈ row.stepupTokenExpiresAt, now < expiry

instance (row : CredentialRow) (token : String) (now : ℤ) :
    Decidable (StepupAdmits row token now) :=
  inferInstanceAs (Decidable (token ≠ "" ∧ row.stepupToken = some token ∧
    ∃ expiry ∈ row.stepupTokenExpiresAt, now < expiry))

/-- The step-up token that a request uses up: none when the user has a password and gave it. An
insufficient proof is an error. -/
def proofOf (row : CredentialRow) (proof : Proof) (now : ℤ) : Option (Option String) :=
  if row.passwordSet = true then
    if proof.passwordOk = true then some none else none
  else
    match proof.stepupToken with
    | some token => if StepupAdmits row token now then some (some token) else none
    | none => none

/-! ### Writes of the row -/

/-- What a request writes into the row of the user, with the row that it has read. -/
inductive RowWrite
  | recovery (hash : String) (seen : CredentialRow) (rest : List String)
  | reset (iat : ℤ) (seen : CredentialRow) (now : ℤ)
  | password (stepup : Option String) (seen : CredentialRow) (now : ℤ)
  | email (stepup : Option String) (seen : CredentialRow) (newEmail : String)
  deriving DecidableEq

/-- The columns of a step-up token after a request that may have used one up. -/
def clearStepup (row : CredentialRow) (stepup : Option String) : CredentialRow :=
  match stepup with
  | some _ => { row with stepupToken := none, stepupTokenExpiresAt := none }
  | none => row

/-- The row after a write of the columns that the request changed. -/
def RowWrite.apply (store : ℤ → ℤ) (row : CredentialRow) : RowWrite → CredentialRow
  | .recovery _ _ rest => { row with recoveryCodes := rest }
  | .reset _ _ now => { row with passwordSet := true, passwordChangedAt := some (store now) }
  | .password stepup _ now =>
      { clearStepup row stepup with passwordSet := true, passwordChangedAt := some (store now) }
  | .email stepup _ newEmail => { clearStepup row stepup with email := newEmail }

/-- The credential that a write uses up. -/
def RowWrite.credential : RowWrite → Option Credential
  | .recovery hash _ _ => some (.recoveryCode hash)
  | .reset iat _ _ => some (.resetToken iat)
  | .password stepup _ _ => stepup.map .stepupToken
  | .email stepup _ _ => stepup.map .stepupToken

/-! ### Requests in steps -/

/-- The clock, the row of the user and whether a request has it locked, the nonces in Redis, and the
credentials that have authorised a success, which nothing reads. -/
structure CredentialStore where
  clock : ℤ
  row : CredentialRow
  locked : Bool := false
  nonces : List String := []
  successes : List Credential := []

/-- Where a request is. -/
inductive CredentialPhase
  | reading (r : CredentialRequest)
  | flushing (redis : Bool) (w : RowWrite)
  | issuing (redis : Bool) (w : RowWrite)
  | resetting (iat : ℤ) (seen : CredentialRow)
  | changing (stepup : Option String) (seen : CredentialRow)
  | committing (own : Bool) (w : RowWrite)
  | consuming (jti : String) (redis : Bool)
  | answering (jti : String) (redis : Bool)

namespace CredentialStore

variable (hashRecoveryCode : String → String)

/-- The first step of a request: what it reads and checks. -/
def read (s : CredentialStore) : CredentialRequest → CredentialStore × Option CredentialPhase
  | .mfaRecovery code redis =>
      if s.row.isActive = true ∧ s.row.mfaEnabled = true then
        match verifyRecoveryCode (hashRecoveryCode code) s.row.recoveryCodes with
        | some i =>
            (s, some (.flushing redis
              (.recovery (hashRecoveryCode code) s.row (s.row.recoveryCodes.eraseIdx i))))
        | none => (s, none)
      else (s, none)
  | .mfaEmailVerify jti codeMatches redis =>
      if s.row.isActive = true ∧ s.row.mfaEnabled = true ∧ codeMatches = true then
        (s, some (.consuming jti redis))
      else (s, none)
  | .resetPassword iat =>
      if s.clock < ofSeconds iat + resetTtl ∧ s.row.isActive = true ∧ ResetAdmits s.row iat then
        (s, some (.resetting iat s.row))
      else (s, none)
  | .changePassword proof =>
      match proofOf s.row proof s.clock with
      | some stepup => (s, some (.changing stepup s.row))
      | none => (s, none)
  | .updateProfile newEmail emailTaken proof =>
      if newEmail = s.row.email then (s, none)
      else
        match proofOf s.row proof s.clock with
        | some stepup =>
            if emailTaken = true then (s, none)
            else (s, some (.committing false (.email stepup s.row newEmail)))
        | none => (s, none)
  | .elapse ticks => ({ s with clock := s.clock + ticks }, none)
  | .expireNonce jti => ({ s with nonces := s.nonces.filter (· ≠ jti) }, none)

/-- The next step of a request. A write waits while another request has the row locked. -/
def advance (store : ℤ → ℤ) (s : CredentialStore) :
    CredentialPhase → CredentialStore × Option CredentialPhase
  | .reading r => s.read hashRecoveryCode r
  | .flushing redis w =>
      if s.locked = true then (s, some (.flushing redis w))
      else ({ s with locked := true }, some (.issuing redis w))
  -- the session goes to Redis while the row is locked; without it the write is rolled back
  | .issuing redis w =>
      if redis = true then (s, some (.committing true w)) else ({ s with locked := false }, none)
  | .resetting iat seen => (s, some (.committing false (.reset iat seen s.clock)))
  | .changing stepup seen => (s, some (.committing false (.password stepup seen s.clock)))
  | .committing own w =>
      if s.locked = true ∧ own = false then (s, some (.committing own w))
      else
        ({ s with
          row := w.apply store s.row, locked := false
          successes := s.successes ++ w.credential.toList }, none)
  | .consuming jti redis =>
      if jti ∈ s.nonces then
        ({ s with nonces := s.nonces.filter (· ≠ jti) }, some (.answering jti redis))
      else (s, none)
  | .answering jti redis =>
      if redis = true then ({ s with successes := s.successes ++ [.emailNonce jti] }, none)
      else (s, none)

/-- The requests of one user. -/
def sessions (store : ℤ → ℤ) : Sessions CredentialStore CredentialRequest CredentialPhase where
  start := .reading
  advance := advance hashRecoveryCode store

end CredentialStore

end Pfv
