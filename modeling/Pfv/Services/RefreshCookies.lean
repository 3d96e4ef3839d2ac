import Pfv.Models.Schemas
import Pfv.Services.AuthSessions

/-!
# Refresh cookies

A browser may present several values of the cookie `refresh_token` in one request
(`backend/app/routers/auth.py`). Every value is checked on its own, against the users and the keys
in Redis, and the request is authenticated by one of the values that pass. A read of Redis may fail;
what of a check fails is chosen for each value.

The decoding of a token, with its signature and its expiry, is a parameter. A user has the time to
live of the sessions of its organisation.

## Main definitions

* `extractRefreshCookies`: the values of the cookie in the header of a request.
* `CookieState.validateSingleRefreshToken`: the check of one value.
* `CookieState.validateRefreshCookie`: the choice among the values.
-/

namespace Pfv

/-! ### The header -/

/-- The value of a part of the header, when the part names the cookie: `str.partition` splits it at
the first `=`. -/
def refreshCookieValue (part : String) : Option String :=
  let name := (strip part).toList.takeWhile (· ≠ '=')
  match (strip part).toList.dropWhile (· ≠ '=') with
  | _ :: value => if String.ofList name = "refresh_token" then some (String.ofList value) else none
  | [] => none

/-- All values of the cookie in the header, in the order of their arrival. -/
def extractRefreshCookies (header : Option String) : List String :=
  (((header.getD "").toList.splitOn ';').map String.ofList).filterMap refreshCookieValue

/-! ### One value -/

/-- The claims of a token. An id that is missing or empty is `none`. -/
structure RefreshPayload where
  type : String
  sub : ℕ
  iat : Option ℤ
  jti : Option ℕ
  sid : Option ℕ
  sessionCreatedAt : Option ℤ
  deriving DecidableEq

structure HttpException where
  status : ℕ
  detail : String
  deriving DecidableEq

/-- Which reads of Redis fail while a value is checked. -/
structure ReadFailures where
  primary : Bool := false
  grace : Bool := false
  family : Bool := false
  member : Bool := false
  deriving DecidableEq

/-- The key that vouches for a token. -/
inductive SessionKeyState
  | primary
  | grace
  deriving DecidableEq

/-- What the check of a value returns. The row of a grace key also has a successor. -/
structure ValidatedSession where
  userId : ℕ
  payload : RefreshPayload
  sessionStart : Option ℤ
  redisState : SessionKeyState
  ttlSeconds : ℤ
  row : SessionRow
  successorJti : Option ℕ
  deriving DecidableEq

/-- The users, with the time to live of their sessions, and Redis. -/
structure CookieState where
  redis : RedisStore
  users : ℕ → Option AuthUser
  sessionTtlSeconds : ℕ → ℤ

/-- `SESSION_REDIS_UNAVAILABLE_DETAIL`. -/
def redisUnavailable : HttpException := ⟨503, "Authentication temporarily unavailable"⟩

def sessionInvalidated : HttpException := ⟨401, "Session has been invalidated"⟩

/-- `AMBIGUOUS_SESSION_DETAIL`. -/
def ambiguousSession : HttpException := ⟨401, "Ambiguous session — please sign in again"⟩

/-- The row of the primary key of a token, or of its grace key while the family exists. -/
def RedisStore.sessionRow (r : RedisStore) (fails : ReadFailures) (jti sid : ℕ) :
    Except HttpException (SessionRow × SessionKeyState × Option ℕ) := do
  raiseIf (fails.primary = true) redisUnavailable
  match r.sessionValidate jti with
  | some row => pure (row, .primary, none)
  | none => do
      raiseIf (fails.grace = true) redisUnavailable
      let row ← orRaise (r.sessionGrace jti) sessionInvalidated
      raiseIf (fails.family = true) redisUnavailable
      raiseIf (¬r.sessionFamilyExists sid) sessionInvalidated
      pure (row.toSessionRow, .grace, some row.successorJti)

/-- On the primary path the token must be a member of its family. -/
def RedisStore.checkMember (r : RedisStore) (fails : ReadFailures) (jti sid : ℕ) :
    SessionKeyState → Except HttpException Unit
  | .primary => do
      raiseIf (fails.member = true) redisUnavailable
      raiseIf (jti ∉ r.members sid) sessionInvalidated
  | .grace => pure ()

namespace CookieState

variable (s : CookieState) (decode : String → Option RefreshPayload)

/-- Validate one value of the cookie. -/
def validateSingleRefreshToken (fails : ReadFailures) (token : String) :
    Except HttpException ValidatedSession := do
  let payload ← orRaise ((decode token).filter (·.type = "refresh")) ⟨401, "Invalid refresh token"⟩
  let user ← orRaise ((s.users payload.sub).filter (·.isActive))
    ⟨401, "User not found or inactive"⟩
  raiseIf (∃ iat ∈ payload.iat, IssuedBeforeCutoff user iat) sessionInvalidated
  let jti ← orRaise payload.jti sessionInvalidated
  let sid ← orRaise payload.sid sessionInvalidated
  let (row, redisState, successorJti) ← s.redis.sessionRow fails jti sid
  raiseIf (row.userId ≠ payload.sub ∨ row.sid ≠ sid) sessionInvalidated
  s.redis.checkMember fails jti sid redisState
  let ttlSeconds := s.sessionTtlSeconds payload.sub
  -- a time of zero counts as none
  let sessionStart := payload.sessionCreatedAt.filter (· ≠ 0)
  raiseIf (∃ start ∈ sessionStart, ofSeconds ttlSeconds < s.redis.clock - start)
    ⟨401, "Session expired — please sign in again"⟩
  pure
    { userId := payload.sub, payload := payload, sessionStart := sessionStart
      redisState := redisState, ttlSeconds := ttlSeconds, row := row, successorJti := successorJti }

end CookieState

/-! ### All values -/

/-- The variables of the loop over the values. -/
structure CookieLoop where
  successes : List ValidatedSession := []
  lastExc : Option HttpException := none
  transientExc : Option HttpException := none

/-- One turn of the loop: the first server error is remembered, and the last error. -/
def CookieLoop.collect (l : CookieLoop) : Except HttpException ValidatedSession → CookieLoop
  | .ok session => { l with successes := l.successes ++ [session] }
  | .error exc =>
      { l with
        lastExc := some exc
        transientExc :=
          if 500 ≤ exc.status ∧ l.transientExc = none then some exc else l.transientExc }

/-- `payload.get("iat", 0)`. -/
def ValidatedSession.issuedAt (session : ValidatedSession) : ℤ := session.payload.iat.getD 0

/-- The choice among the values that passed. -/
def CookieLoop.choose (l : CookieLoop) : Except HttpException ValidatedSession :=
  match l.successes with
  | [] =>
      match l.transientExc.or l.lastExc with
      | some chosen => .error chosen
      | none => .error ⟨500, "AssertionError"⟩
  | _ :: _ => do
      raiseIf (1 < (l.successes.map (·.userId)).dedup.length) ambiguousSession
      -- the sort is stable, the newest token first
      orRaise (l.successes.insertionSort fun a b => b.issuedAt ≤ a.issuedAt).head?
        ⟨500, "IndexError"⟩

namespace CookieState

variable (s : CookieState) (decode : String → Option RefreshPayload)

/-- Validate the presented values and pick one. -/
def validateRefreshCookie (presented : List (String × ReadFailures)) :
    Except HttpException ValidatedSession :=
  if presented = [] then .error ⟨401, "No refresh token"⟩
  else
    (presented.foldl
      (fun (l : CookieLoop) p => l.collect (s.validateSingleRefreshToken decode p.2 p.1)) {}).choose

end CookieState

end Pfv
