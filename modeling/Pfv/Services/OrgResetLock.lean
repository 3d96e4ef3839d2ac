import Pfv.Base.Session

/-!
# The reset lease of an organisation

A reset of an organisation's data is run under a lease, which is a row with the organisation as its
primary key. A call first reads the clock and generates a token, then tries to insert the row, and
when there is one already it takes over the row if that has been there for longer than
`lockTtl`. A release deletes the row if it still has the caller's token.

Each statement is one atomic step, and time passes between the steps. A time is in microseconds. The
column keeps the time with less precision, in a way that is a parameter here. A token is a number
that no earlier call has generated.
-/

namespace Pfv

/-- `LOCK_TTL_MINUTES`. -/
def lockTtl : ℤ := 30 * 60 * 1000000

/-- The row of an organisation in `org_data_reset_locks`. -/
structure ResetLease where
  acquiredByUserId : ℕ
  acquiredAt : ℤ
  leaseToken : ℕ
deriving DecidableEq

/-- A row is older than a moment by more than its time to live. -/
def ResetLease.StaleAt (l : ResetLease) (now : ℤ) : Prop :=
  l.acquiredAt < now - lockTtl

instance (l : ResetLease) (now : ℤ) : Decidable (l.StaleAt now) :=
  inferInstanceAs (Decidable (l.acquiredAt < now - lockTtl))

/-- The clock, how many tokens have been generated, and the row of the organisation, if any. -/
structure ResetLock where
  clock : ℤ
  minted : ℕ
  row : Option ResetLease
deriving DecidableEq

/-- A call that acquires the lease, or time that passes. -/
inductive ResetRequest
  | acquire (userId : ℕ)
  | elapse (ticks : ℕ)

/-- Where a call is. A caller that crashes takes no further step. -/
inductive ResetCall
  | acquiring (userId : ℕ)
  | inserting (now : ℤ) (l : ResetLease)
  | takingOver (now : ℤ) (l : ResetLease)
  | returning (l : ResetLease)
  | holding (l : ResetLease)
  | released (l : ResetLease)
  | elapsing (ticks : ℕ)
deriving DecidableEq

namespace ResetLock

/-- `release_reset_lock`. -/
def releaseResetLock (s : ResetLock) (token : ℕ) : ResetLock :=
  match s.row with
  | some r => if r.leaseToken = token then { s with row := none } else s
  | none => s

/-- The next step of a call. -/
def advance (store : ℤ → ℤ) (s : ResetLock) : ResetCall → ResetLock × Option ResetCall
  | .acquiring userId =>
      ({ s with minted := s.minted + 1 },
        some (.inserting s.clock
          { acquiredByUserId := userId, acquiredAt := store s.clock, leaseToken := s.minted }))
  | .inserting now l =>
      match s.row with
      | none => ({ s with row := some l }, some (.returning l))
      | some _ => (s, some (.takingOver now l))
  | .takingOver now l =>
      match s.row with
      | some r =>
          if r.StaleAt now then ({ s with row := some l }, some (.returning l)) else (s, none)
      | none => (s, none)
  | .returning l => (s, some (.holding l))
  -- the release is called from a `finally`, and may be called again
  | .holding l => (s.releaseResetLock l.leaseToken, some (.released l))
  | .released l => (s.releaseResetLock l.leaseToken, some (.released l))
  | .elapsing ticks => ({ s with clock := s.clock + ticks }, none)

/-- `acquire_reset_lock` and `release_reset_lock` as sessions. -/
def sessions (store : ℤ → ℤ) : Sessions ResetLock ResetRequest ResetCall where
  start
    | .acquire userId => .acquiring userId
    | .elapse ticks => .elapsing ticks
  advance := advance store

end ResetLock

end Pfv
