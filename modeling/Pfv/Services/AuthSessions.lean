import Pfv.Services.Credentials

/-!
# Refresh sessions

A login opens a session and every refresh rotates its token (`backend/app/routers/auth.py`). What
a token is worth is kept in Redis (`backend/app/redis_client.py`): a primary key per live token, a
grace key for half a minute under a token that was rotated away, with its successor, and the family,
which is the set of the tokens of a session. A rotation is one script and a logout two transactions;
everything else a request does is one command after another, and between two commands other requests
run and time passes.

A key is gone at its deadline. A command that Redis has run may get no reply: the client sends it
once more, or the request gives up. A time is in microseconds, a token carries the whole second of
its issue. A request presents one token; passwords and the second factors of a login are checked
before what is modelled here.

## Main definitions

* `RedisStore`: the keys in Redis; `AuthStore`: with the users and the tokens that were minted.
* `RedisStore.rotateSession`: the script of a rotation.
* `RedisStore.roundA`, `RedisStore.roundB`: the two transactions of a logout.
* `AuthStore.step`: the next step of a request.
* `AuthStore.sessions`: requests that interleave.
-/

namespace Pfv

/-! ### Keys -/

/-- A value with its deadline. -/
structure Entry (α : Type) where
  value : α
  expiresAt : ℤ

/-- The value of a key at a moment: a key is gone at its deadline. -/
def liveAt {α : Type} (now : ℤ) : Option (Entry α) → Option α
  | some e => if now < e.expiresAt then some e.value else none
  | none => none

/-- The value of a primary key: the user and the session of a token. -/
structure SessionRow where
  userId : ℕ
  sid : ℕ
  deriving DecidableEq

/-- The value of a grace key: also the token that replaced this one. -/
structure GraceRow extends SessionRow where
  successorJti : ℕ
  deriving DecidableEq

/-- The columns of a user that decide whether a token is accepted. -/
structure AuthUser where
  isActive : Bool := true
  passwordChangedAt : Option ℤ := none
  sessionsInvalidatedAt : Option ℤ := none
  deriving DecidableEq

structure RefreshToken where
  sub : ℕ
  jti : ℕ
  sid : ℕ
  sessionCreatedAt : ℤ
  iat : ℤ
  exp : ℤ
  deriving DecidableEq

/-- An access token, with the session from which it descends, which the token itself does not
carry. -/
structure AccessToken where
  sub : ℕ
  sid : ℕ
  iat : ℤ
  exp : ℤ
  deriving DecidableEq

/-- What the key of a token must say. -/
def RefreshToken.binding (token : RefreshToken) : SessionRow := ⟨token.sub, token.sid⟩

/-- The times to live of a session and of an access token, and how a column keeps a time. -/
structure AuthSettings where
  sessionTtl : ℤ
  accessTtl : ℤ
  store : ℤ → ℤ

/-- `SESSION_GRACE_TTL_SECONDS`. -/
def graceTtl : ℤ := ofSeconds 30

/-- The whole second of a moment. -/
def secondOf (t : ℤ) : ℤ := t / 1000000

/-- The keys in Redis and the clock. -/
structure RedisStore where
  clock : ℤ
  primary : ℕ → Option (Entry SessionRow) := fun _ => none
  grace : ℕ → Option (Entry GraceRow) := fun _ => none
  family : ℕ → Option (Entry (Finset ℕ)) := fun _ => none

/-- Redis and the users, with the tokens that were minted, which nothing reads. -/
structure AuthStore extends RedisStore where
  users : ℕ → Option AuthUser
  issued : List RefreshToken := []
  granted : List AccessToken := []

/-! ### Cutoffs -/

/-- `token_cutoff`: the earliest issue of a token that is still valid. -/
def tokenCutoff (user : AuthUser) : Option ℤ :=
  match user.passwordChangedAt, user.sessionsInvalidatedAt with
  | some changed, some invalidated => some (max changed invalidated)
  | some changed, none => some changed
  | none, invalidated => invalidated

/-- A token was issued before the cutoff of its user. -/
def IssuedBeforeCutoff (user : AuthUser) (iat : ℤ) : Prop :=
  ∃ cutoff ∈ tokenCutoff user, ofSeconds iat < cutoff

instance (user : AuthUser) (iat : ℤ) : Decidable (IssuedBeforeCutoff user iat) :=
  inferInstanceAs (Decidable (∃ cutoff ∈ tokenCutoff user, ofSeconds iat < cutoff))

/-- `get_current_user` accepts an access token. -/
def AcceptsAccess (s : AuthStore) (token : AccessToken) : Prop :=
  s.clock < ofSeconds token.exp ∧
    ∃ user ∈ s.users token.sub, user.isActive = true ∧ ¬IssuedBeforeCutoff user token.iat

/-- What makes all tokens of a user invalid: a change or reset of the password, a change of the
address or a deactivation. -/
inductive Invalidation
  | password
  | email
  | deactivation
  deriving DecidableEq

/-- The columns of the user after an invalidation with the time that it has read. -/
def Invalidation.apply (store : ℤ → ℤ) (now : ℤ) (user : AuthUser) : Invalidation → AuthUser
  | .password =>
      { user with
        passwordChangedAt := some (store now), sessionsInvalidatedAt := some (store now) }
  | .email => { user with sessionsInvalidatedAt := some (store now) }
  | .deactivation => { user with isActive := false, sessionsInvalidatedAt := some (store now) }

/-! ### Commands -/

inductive RotateResult
  | ok
  | sessionRevoked
  | alreadyRotated
  | jtiCollision
  deriving DecidableEq

namespace RedisStore

variable (cfg : AuthSettings) (r : RedisStore)

def sessionValidate (jti : ℕ) : Option SessionRow := liveAt r.clock (r.primary jti)

def sessionGrace (jti : ℕ) : Option GraceRow := liveAt r.clock (r.grace jti)

/-- The tokens in the family of a session. -/
def members (sid : ℕ) : Finset ℕ := (liveAt r.clock (r.family sid)).getD ∅

def sessionFamilyExists (sid : ℕ) : Prop := (liveAt r.clock (r.family sid)).isSome = true

instance (sid : ℕ) : Decidable (r.sessionFamilyExists sid) :=
  inferInstanceAs (Decidable ((liveAt r.clock (r.family sid)).isSome = true))

/-- Add a token to the family of a session and set the deadline of the family. -/
def addMember (sid jti : ℕ) : ℕ → Option (Entry (Finset ℕ)) :=
  Function.update r.family sid (some ⟨insert jti (r.members sid), r.clock + cfg.sessionTtl⟩)

/-- `session_issue`. -/
def sessionIssue (jti : ℕ) (row : SessionRow) : RedisStore :=
  { r with
    primary := Function.update r.primary jti (some ⟨row, r.clock + cfg.sessionTtl⟩)
    family := r.addMember cfg row.sid jti }

/-- The writes of a rotation. -/
def rotated (oldJti newJti : ℕ) (row : SessionRow) : RedisStore :=
  { r with
    primary := Function.update
      (Function.update r.primary newJti (some ⟨row, r.clock + cfg.sessionTtl⟩)) oldJti none
    grace := Function.update r.grace oldJti
      (some ⟨{ row with successorJti := newJti }, r.clock + graceTtl⟩)
    family := r.addMember cfg row.sid newJti }

/-- What `ROTATE_SESSION_LUA` returns: the token must be in the family and have its primary key, and
the new one must have none. -/
def rotateResult (oldJti newJti sid : ℕ) : RotateResult :=
  if oldJti ∉ r.members sid then .sessionRevoked
  else if r.sessionValidate oldJti = none then .alreadyRotated
  else if r.sessionValidate newJti ≠ none then .jtiCollision
  else .ok

/-- `ROTATE_SESSION_LUA`: it writes only where it returns `ok`. -/
def rotateSession (oldJti newJti : ℕ) (row : SessionRow) : RedisStore :=
  if r.rotateResult oldJti newJti row.sid = .ok then r.rotated cfg oldJti newJti row else r

/-- Round A of `session_revoke_family`: the family is deleted. -/
def roundA (sid : ℕ) : RedisStore :=
  { r with family := Function.update r.family sid none }

/-- Round B: the keys of the tokens that were in the family are deleted. -/
def roundB (jtis : Finset ℕ) : RedisStore :=
  { r with
    primary := fun jti => if jti ∈ jtis then none else r.primary jti
    grace := fun jti => if jti ∈ jtis then none else r.grace jti }

end RedisStore

namespace AuthStore

variable (cfg : AuthSettings) (s : AuthStore)

/-! ### Tokens -/

def mintAccess (sub sid : ℕ) : AccessToken where
  sub := sub
  sid := sid
  iat := secondOf s.clock
  exp := secondOf (s.clock + cfg.accessTtl)

def mintRefresh (binding : SessionRow) (jti : ℕ) (sessionCreatedAt : ℤ) : RefreshToken where
  sub := binding.userId
  jti := jti
  sid := binding.sid
  sessionCreatedAt := sessionCreatedAt
  iat := secondOf s.clock
  exp := secondOf (s.clock + cfg.sessionTtl)

end AuthStore

/-! ### Requests -/

/-- The endpoint of a request that presents a token, with the random ids of a rotation and of its
retry. -/
inductive Endpoint
  | refresh (newJti retryJti : ℕ)
  | verify
  deriving DecidableEq

/-- A token that a request presents, with the row of its user as the request has read it. -/
structure Presented where
  endpoint : Endpoint
  token : RefreshToken
  user : AuthUser
  deriving DecidableEq

inductive AuthAnswer
  | loggedIn (access : AccessToken) (token : RefreshToken)
  | refreshed (access : AccessToken) (token : RefreshToken)
  | verified (access : AccessToken)
  | unauthorized (detail : String)
  | unavailable
  | done
  deriving DecidableEq

/-- Where a request is. -/
inductive AuthPhase
  | opening (userId jti sid : ℕ)
  | issuing (access : AccessToken) (token : RefreshToken)
  | reading (endpoint : Endpoint) (token : RefreshToken)
  | probing (x : Presented)
  | checkingMember (x : Presented)
  | probingGrace (x : Presented)
  | checkingFamily (x : Presented) (row : GraceRow)
  | validated (x : Presented) (successor : Option ℕ)
  | rotating (x : Presented) (access : AccessToken) (new : RefreshToken) (retryJti : Option ℕ)
  | reprobingGrace (x : Presented) (access : AccessToken)
  | recheckingFamily (x : Presented) (access : AccessToken) (row : Option GraceRow)
  | catchingUp (x : Presented) (access : AccessToken) (successor : ℕ)
  | catchingUpMember (x : Presented) (access : AccessToken) (successor : ℕ)
  | minting (x : Presented) (access : AccessToken) (successor : ℕ)
  | revoking (sid : ℕ)
  | cleaning (jtis : Finset ℕ)
  | stamping (userId : ℕ) (change : Invalidation)
  | invalidating (userId : ℕ) (change : Invalidation) (now : ℤ)
  | elapsing (ticks : ℕ)
  | answered (answer : AuthAnswer)

/-- The next step of a request is a command to Redis. -/
def AuthPhase.OnRedis : AuthPhase → Prop
  | .issuing .. | .probing _ | .checkingMember _ | .probingGrace _ | .checkingFamily ..
  | .rotating .. | .reprobingGrace .. | .recheckingFamily .. | .catchingUp ..
  | .catchingUpMember .. | .revoking _ | .cleaning _ => True
  | _ => False

instance : DecidablePred AuthPhase.OnRedis
  | .issuing .. | .probing _ | .checkingMember _ | .probingGrace _ | .checkingFamily ..
  | .rotating .. | .reprobingGrace .. | .recheckingFamily .. | .catchingUp ..
  | .catchingUpMember .. | .revoking _ | .cleaning _ => .isTrue trivial
  | .opening .. | .reading .. | .validated .. | .minting .. | .stamping .. | .invalidating ..
  | .elapsing _ | .answered _ => .isFalse id

def invalidatedSession : AuthPhase := .answered (.unauthorized "Session has been invalidated")

def expiredSession : AuthPhase := .answered (.unauthorized "Session expired — please sign in again")

/-- What a request answers when it gives up on Redis: a logout clears the cookie all the same. -/
def AuthPhase.givesUp : AuthPhase → AuthAnswer
  | .revoking _ | .cleaning _ => .done
  | _ => .unavailable

/-- What a step does to Redis, whether or not the reply to its command arrives. -/
def RedisStore.effect (cfg : AuthSettings) (r : RedisStore) : AuthPhase → RedisStore
  | .issuing _ token => r.sessionIssue cfg token.jti token.binding
  | .rotating x _ new _ => r.rotateSession cfg x.token.jti new.jti x.token.binding
  | .revoking sid => r.roundA sid
  | .cleaning jtis => r.roundB jtis
  | .elapsing ticks => { r with clock := r.clock + ticks }
  | _ => r

namespace AuthStore

variable (cfg : AuthSettings)

/-- The store after what a step does to Redis. -/
def run (s : AuthStore) (p : AuthPhase) : AuthStore :=
  { s with toRedisStore := s.toRedisStore.effect cfg p }

/-- A request that has validated its token mints an access token and goes on. -/
def goOn (s : AuthStore) (x : Presented) (successor : Option ℕ) : AuthStore × AuthPhase :=
  let access := s.mintAccess cfg x.token.sub x.token.sid
  let s' : AuthStore := { s with granted := s.granted ++ [access] }
  match x.endpoint, successor with
  | .verify, _ => (s', .answered (.verified access))
  | .refresh _ _, some successor => (s', .catchingUp x access successor)
  | .refresh newJti retryJti, none =>
      let new := s.mintRefresh cfg x.token.binding newJti x.token.sessionCreatedAt
      ({ s' with issued := s.issued ++ [new] }, .rotating x access new (some retryJti))

/-- The next step of a request, with the reply to its command if it has one. -/
def step (s : AuthStore) : AuthPhase → AuthStore × AuthPhase
  | .opening userId jti sid =>
      match s.users userId with
      | some user =>
          if user.isActive = true then
            let access := s.mintAccess cfg userId sid
            let token := s.mintRefresh cfg ⟨userId, sid⟩ jti s.clock
            ({ s with granted := s.granted ++ [access], issued := s.issued ++ [token] },
              .issuing access token)
          else (s, .answered (.unauthorized "Invalid username or password"))
      | none => (s, .answered (.unauthorized "Invalid username or password"))
  | .issuing access token =>
      (s.run cfg (.issuing access token), .answered (.loggedIn access token))
  | .reading endpoint token =>
      if s.clock < ofSeconds token.exp then
        match s.users token.sub with
        | some user =>
            if user.isActive = true then
              if IssuedBeforeCutoff user token.iat then (s, invalidatedSession)
              else (s, .probing ⟨endpoint, token, user⟩)
            else (s, .answered (.unauthorized "User not found or inactive"))
        | none => (s, .answered (.unauthorized "User not found or inactive"))
      else (s, .answered (.unauthorized "Invalid refresh token"))
  | .probing x =>
      (s, match s.sessionValidate x.token.jti with
        | some row => if row = x.token.binding then .checkingMember x else invalidatedSession
        | none => .probingGrace x)
  | .checkingMember x =>
      (s, if x.token.jti ∈ s.members x.token.sid then .validated x none else invalidatedSession)
  | .probingGrace x =>
      (s, match s.sessionGrace x.token.jti with
        | some row => .checkingFamily x row
        | none => invalidatedSession)
  | .checkingFamily x row =>
      (s, if s.sessionFamilyExists x.token.sid ∧ row.toSessionRow = x.token.binding then
        .validated x (some row.successorJti) else invalidatedSession)
  | .validated x successor =>
      if cfg.sessionTtl < s.clock - x.token.sessionCreatedAt then (s, expiredSession)
      else s.goOn cfg x successor
  | .rotating x access new retryJti =>
      let s' := s.run cfg (.rotating x access new retryJti)
      match s.rotateResult x.token.jti new.jti x.token.sid, retryJti with
      | .ok, _ => (s', .answered (.refreshed access new))
      | .sessionRevoked, _ => (s', invalidatedSession)
      | .alreadyRotated, _ => (s', .reprobingGrace x access)
      -- a collision is retried once, with a new token
      | .jtiCollision, some jti =>
          let new := s.mintRefresh cfg x.token.binding jti x.token.sessionCreatedAt
          ({ s' with issued := s.issued ++ [new] }, .rotating x access new none)
      | .jtiCollision, none => (s', .answered .unavailable)
  | .reprobingGrace x access => (s, .recheckingFamily x access (s.sessionGrace x.token.jti))
  | .recheckingFamily x access (some row) =>
      (s, if s.sessionFamilyExists x.token.sid ∧ row.toSessionRow = x.token.binding then
        .catchingUp x access row.successorJti else invalidatedSession)
  | .recheckingFamily _ _ none => (s, invalidatedSession)
  | .catchingUp x access successor =>
      (s, if s.sessionValidate successor = some x.token.binding then
        .catchingUpMember x access successor else invalidatedSession)
  | .catchingUpMember x access successor =>
      (s, if successor ∈ s.members x.token.sid then .minting x access successor
        else invalidatedSession)
  | .minting x access successor =>
      let token := s.mintRefresh cfg x.token.binding successor x.token.sessionCreatedAt
      ({ s with issued := s.issued ++ [token] }, .answered (.refreshed access token))
  | .revoking sid =>
      (s.run cfg (.revoking sid),
        if s.members sid = ∅ then .answered .done else .cleaning (s.members sid))
  | .cleaning jtis => (s.run cfg (.cleaning jtis), .answered .done)
  | .stamping userId change => (s, .invalidating userId change s.clock)
  | .invalidating userId change now =>
      ({ s with
        users := Function.update s.users userId
          ((s.users userId).map fun user => change.apply cfg.store now user) }, .answered .done)
  | .elapsing ticks => (s.run cfg (.elapsing ticks), .answered .done)
  | .answered answer => (s, .answered answer)

/-- What becomes of the reply to a command. -/
inductive Reply
  | delivered
  | resent
  | lost
  deriving DecidableEq

/-- A request with what becomes of the replies to its next commands. -/
structure Call where
  phase : AuthPhase
  replies : List Reply := []

/-- The next step of a request: when the reply to a command is lost, the command is sent again or
the request gives up. -/
def advance (s : AuthStore) (c : Call) : AuthStore × Option Call :=
  if c.phase.OnRedis then
    match c.replies with
    | .resent :: replies => (s.run cfg c.phase, some ⟨c.phase, replies⟩)
    | .lost :: replies => (s.run cfg c.phase, some ⟨.answered c.phase.givesUp, replies⟩)
    | .delivered :: replies => ((s.step cfg c.phase).1, some ⟨(s.step cfg c.phase).2, replies⟩)
    | [] => ((s.step cfg c.phase).1, some ⟨(s.step cfg c.phase).2, []⟩)
  else ((s.step cfg c.phase).1, some ⟨(s.step cfg c.phase).2, c.replies⟩)

end AuthStore

inductive AuthRequest
  | login (userId jti sid : ℕ)
  | refresh (token : RefreshToken) (newJti retryJti : ℕ)
  | verify (token : RefreshToken)
  | logout (sid : ℕ)
  | invalidate (userId : ℕ) (change : Invalidation)
  | elapse (ticks : ℕ)

/-- The first phase of a request. -/
def AuthRequest.phase : AuthRequest → AuthPhase
  | .login userId jti sid => .opening userId jti sid
  | .refresh token newJti retryJti => .reading (.refresh newJti retryJti) token
  | .verify token => .reading .verify token
  | .logout sid => .revoking sid
  | .invalidate userId change => .stamping userId change
  | .elapse ticks => .elapsing ticks

/-- The requests of all users. A request that has answered stays as a record of its answer. -/
def AuthStore.sessions (cfg : AuthSettings) :
    Sessions AuthStore (AuthRequest × List AuthStore.Reply) AuthStore.Call where
  start r := ⟨r.1.phase, r.2⟩
  advance := AuthStore.advance cfg

end Pfv
