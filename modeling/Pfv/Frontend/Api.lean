import Mathlib.Tactic

/-!
# The API client of the browser

`frontend/lib/api.ts`: `apiFetch`, `ensureFreshAccessToken`, `setAccessToken`, the refresh of the
access token and the probe of `/auth/me`, as steps between two awaits each. The steps of the calls
on a page come in any order, and so do the answers of the server, which are arbitrary. Awaits
without anything in between that touches the state of the module are one.

A token is the number of its installation: its text matters to nobody here, and it is not empty.
That it is near its expiry is up to the clock, which the steps take as an argument. Besides the
variables of the module and the calls, a page records what happened: which tokens came from
`setAccessToken` (a login), when a refresh sequence ended terminally, and which tokens were cleared
with the event `auth:unauthenticated` on account of which sequence.

## Main definitions

* `RefreshSequence`, `ProbeState`, `ApiCall`: the refreshes, the probes and the calls of a page.
* `Page`: the state of a page.
* `Page.step`: one step.
* `Page.Reached`: the states a page gets into.
-/

namespace Pfv

/-! ### Calls, refreshes and probes -/

/-- `RefreshResult`, or an error thrown on a body that is not an object. -/
inductive RefreshResult
  | ok
  | terminal
  | transient
  | thrown
  deriving DecidableEq

/-- Where a run of `refreshAccessToken` is: an attempt waits for the response or for its body, has
returned, or waits for the next attempt, or the promise is settled. -/
inductive SequenceState
  | fetching (attempt : ℕ)
  | reading (attempt : ℕ)
  | returned (attempt : ℕ) (result : RefreshResult)
  | backoff (attempt : ℕ)
  | settled (result : RefreshResult)
  deriving DecidableEq

/-- A run of `refreshAccessToken`, with the number of tokens installed when it met a 401 or 403. -/
structure RefreshSequence where
  state : SequenceState := .fetching 1
  endedAt : Option ℕ := none
  deriving DecidableEq

/-- Where a run of `probeAuthMeAlive` is: its `finally` runs after it has answered. -/
inductive ProbeState
  | pending
  | answered (alive : Bool)
  | finished (alive : Bool)
  deriving DecidableEq

/-- Where a call is: it waits for the shared refresh before its request or after a 401, or for the
probe `m` after the sequence `q` ended terminally. -/
inductive CallState
  | preflight (q : ℕ)
  | ready
  | sent
  | refreshing (q : ℕ)
  | retrying
  | probing (m q : ℕ)
  | finished
  deriving DecidableEq

/-- A call of `apiFetch` with its path, or one of `ensureFreshAccessToken` without. -/
structure ApiCall where
  path : Option String
  state : CallState
  deriving DecidableEq

/-- The body of a refresh that was answered with success. -/
inductive RefreshBody
  | token
  | noToken
  | notObject
  deriving DecidableEq

/-- `REFRESH_TRANSIENT_RETRIES`. -/
def refreshTransientRetries : ℕ := 2

def isAuthEndpoint (path : String) : Bool :=
  "/api/v1/auth/".toList <+: path.toList

/-- A 401 on these paths means bad input. -/
def isCredCheck (path : String) : Bool :=
  "/api/v1/auth/login".toList <+: path.toList ∨ "/api/v1/auth/mfa/verify".toList <+: path.toList

/-! ### The page -/

/-- The variables of the module, its calls, and what happened. -/
structure Page where
  accessToken : Option ℕ := none
  refreshPromise : Option ℕ := none
  refreshAwaiters : ℕ := 0
  mePromise : Option ℕ := none
  sequences : List RefreshSequence := []
  probes : List ProbeState := []
  calls : List ApiCall := []
  installed : ℕ := 0
  byLogin : List ℕ := []
  cleared : List (ℕ × ℕ) := []
  deriving DecidableEq

/-- What may happen next. -/
inductive Move
  | setAccessToken (installs : Bool)
  | ensureFresh (nearExpiry : Bool)
  | apiFetch (path : String) (nearExpiry : Bool)
  | send (i : ℕ)
  | respond (i : ℕ) (status : Option ℕ)
  | resume (i : ℕ)
  | retried (i : ℕ)
  | refreshResponse (q : ℕ) (status : Option ℕ)
  | refreshBody (q : ℕ) (body : RefreshBody)
  | resumeRefresh (q : ℕ)
  | backoffOver (q : ℕ)
  | probeResponse (m : ℕ) (status : Option ℕ)
  | probeFinally (m : ℕ)
  | resumeProbed (i : ℕ)
  deriving DecidableEq

namespace Page

variable (s : Page)

/-- A new token in memory. -/
def install : Page :=
  { s with accessToken := some s.installed, installed := s.installed + 1 }

/-- `setAccessToken` from outside the module: with the token of a login, or with `null`. -/
def setAccessToken (installs : Bool) : Page :=
  if installs then { s.install with byLogin := s.installed :: s.byLogin }
  else { s with accessToken := none }

def addCall (c : ApiCall) : Page := { s with calls := s.calls ++ [c] }

def putCall (i : ℕ) (c : ApiCall) : Page := { s with calls := s.calls.set i c }

def putSequence (q : ℕ) (r : RefreshSequence) : Page :=
  { s with sequences := s.sequences.set q r }

/-- The promise that a call joins: the one there is, or a new one. -/
def sharedPromise : ℕ := s.refreshPromise.getD s.sequences.length

/-- Join the refresh in flight, or start one: `refreshAwaiters++`. -/
def share : Page :=
  match s.refreshPromise with
  | some _ => { s with refreshAwaiters := s.refreshAwaiters + 1 }
  | none =>
      { s with
        refreshPromise := some s.sequences.length
        sequences := s.sequences ++ [{}]
        refreshAwaiters := s.refreshAwaiters + 1 }

/-- The `finally` after the shared refresh: the last awaiter clears the promise. -/
def release (q : ℕ) : Page :=
  { s with
    refreshAwaiters := s.refreshAwaiters - 1
    refreshPromise := if s.refreshAwaiters - 1 = 0 ∧ s.refreshPromise = some q then none
      else s.refreshPromise }

/-- The probe that a call joins. -/
def sharedProbe : ℕ := s.mePromise.getD s.probes.length

/-- Join the probe in flight, or start one: without a token it answers at once. -/
def shareProbe : Page :=
  match s.mePromise with
  | some _ => s
  | none =>
      { s with
        mePromise := some s.probes.length
        probes := s.probes ++ [if s.accessToken = none then .answered false else .pending] }

/-- Clear the token that is in memory and dispatch `auth:unauthenticated`. -/
def clear (q : ℕ) : Page :=
  match s.accessToken with
  | some n => { s with accessToken := none, cleared := (n, q) :: s.cleared }
  | none => s

/-- The result of a sequence whose promise is settled. -/
def result (q : ℕ) : Option RefreshResult :=
  match s.sequences[q]? with
  | some ⟨.settled r, _⟩ => some r
  | _ => none

/-- `ensureFreshAccessToken` has something to do. -/
def mustRefresh (nearExpiry : Bool) : Bool := s.accessToken.isSome && nearExpiry

/-- The response to an attempt of a sequence, or `none` when the fetch failed. -/
def refreshResponse (q n : ℕ) (r : RefreshSequence) (status : Option ℕ) : Page :=
  match status with
  | none => s.putSequence q { r with state := .returned n .transient }
  | some status =>
      if status = 401 ∨ status = 403 then
        s.putSequence q { state := .returned n .terminal, endedAt := some s.installed }
      else if 200 ≤ status ∧ status < 300 then s.putSequence q { r with state := .reading n }
      else s.putSequence q { r with state := .returned n .transient }

/-- The body of a response. -/
def refreshBody (q n : ℕ) (r : RefreshSequence) : RefreshBody → Page
  | .token => s.install.putSequence q { r with state := .returned n .ok }
  | .noToken => s.putSequence q { r with state := .returned n .transient }
  | .notObject => s.putSequence q { r with state := .returned n .thrown }

/-- The state of `refreshAccessToken` after an attempt. -/
def afterAttempt (n : ℕ) (result : RefreshResult) : SequenceState :=
  if result = .transient ∧ n ≤ refreshTransientRetries then .backoff n else .settled result

/-- A call resumes after the shared refresh that it joined because of a 401. -/
def afterRefresh (i q : ℕ) (path : Option String) : RefreshResult → Page
  | .ok => (s.release q).putCall i ⟨path, .retrying⟩
  | .terminal => (s.release q).shareProbe.putCall i ⟨path, .probing s.sharedProbe q⟩
  | .transient | .thrown => (s.release q).putCall i ⟨path, .finished⟩

/-- A call resumes after the shared refresh before its request. -/
def afterPreflight (i q : ℕ) (path : Option String) (result : RefreshResult) : Page :=
  (s.release q).putCall i
    ⟨path, if path.isSome ∧ result ≠ .thrown then .ready else .finished⟩

/-- One step. A move that is not possible changes nothing. -/
def step : Move → Page
  | .setAccessToken installs => s.setAccessToken installs
  | .ensureFresh nearExpiry =>
      if s.mustRefresh nearExpiry then s.share.addCall ⟨none, .preflight s.sharedPromise⟩ else s
  | .apiFetch path nearExpiry =>
      if isAuthEndpoint path then s.addCall ⟨path, .sent⟩
      else if s.mustRefresh nearExpiry then s.share.addCall ⟨path, .preflight s.sharedPromise⟩
      else s.addCall ⟨path, .ready⟩
  | .send i =>
      match s.calls[i]? with
      | some ⟨path, .ready⟩ => s.putCall i ⟨path, .sent⟩
      | _ => s
  | .respond i status =>
      match s.calls[i]? with
      | some ⟨path, .sent⟩ =>
          if status = some 401 ∧ ¬path.any isCredCheck then
            s.share.putCall i ⟨path, .refreshing s.sharedPromise⟩
          else s.putCall i ⟨path, .finished⟩
      | _ => s
  | .resume i =>
      match s.calls[i]? with
      | some ⟨path, .preflight q⟩ =>
          match s.result q with
          | some result => s.afterPreflight i q path result
          | none => s
      | some ⟨path, .refreshing q⟩ =>
          match s.result q with
          | some result => s.afterRefresh i q path result
          | none => s
      | _ => s
  | .retried i =>
      match s.calls[i]? with
      | some ⟨path, .retrying⟩ => s.putCall i ⟨path, .finished⟩
      | _ => s
  | .refreshResponse q status =>
      match s.sequences[q]? with
      | some ⟨.fetching n, endedAt⟩ => s.refreshResponse q n ⟨.fetching n, endedAt⟩ status
      | _ => s
  | .refreshBody q body =>
      match s.sequences[q]? with
      | some ⟨.reading n, endedAt⟩ => s.refreshBody q n ⟨.reading n, endedAt⟩ body
      | _ => s
  | .resumeRefresh q =>
      match s.sequences[q]? with
      | some ⟨.returned n result, endedAt⟩ => s.putSequence q ⟨afterAttempt n result, endedAt⟩
      | _ => s
  | .backoffOver q =>
      match s.sequences[q]? with
      | some ⟨.backoff n, endedAt⟩ => s.putSequence q ⟨.fetching (n + 1), endedAt⟩
      | _ => s
  | .probeResponse m status =>
      match s.probes[m]? with
      | some .pending => { s with probes := s.probes.set m (.answered (status = some 200)) }
      | _ => s
  | .probeFinally m =>
      match s.probes[m]? with
      | some (.answered alive) =>
          { s with probes := s.probes.set m (.finished alive), mePromise := none }
      | _ => s
  | .resumeProbed i =>
      match s.calls[i]? with
      | some ⟨path, .probing m q⟩ =>
          match s.probes[m]? with
          | some (.finished true) => s.putCall i ⟨path, .finished⟩
          | some (.finished false) => (s.clear q).putCall i ⟨path, .finished⟩
          | _ => s
      | _ => s

end Page

/-- The states of a page that starts without a token, after moves that satisfy `ok`. -/
inductive Page.Reached (ok : Page → Move → Prop) : Page → Prop
  | start : Page.Reached ok {}
  | step {s : Page} {m : Move} (hs : Page.Reached ok s) (hok : ok s m) : Page.Reached ok (s.step m)

end Pfv
