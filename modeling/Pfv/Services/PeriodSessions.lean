import Pfv.Base.Session
import Pfv.Services.Periods

/-!
# Requests on billing periods that interleave

Reading the current period, creating stubs and closing the period, statement by statement
(`backend/app/services/billing_service.py`). A request reads without a lock, and writes what it has
made of it in a later commit; the locks of an update that is flushed before its commit would only
rule some of these interleavings out. The key of organisation and start refuses an insert whose
start was taken in between; the request is then rolled back, reads again and goes on from there. A
commit writes the columns that differ from what the request has loaded, over the rows as they are
then.

## Main definitions

* `PeriodTask`: the requests; `PeriodPhase`: where one of them is.
* `setEnd`: the write of an end date.
* `PeriodPhase.advance`, `periodSessions`: the steps.
-/

namespace Pfv

inductive PeriodCall
  | getCurrentPeriod
  | ensureFuturePeriods (count : ℕ)
  | closePeriod (closeDate : Option Date)

/-- A request for an organisation, and the date on which it is served. -/
structure PeriodTask where
  org : ℕ
  today : Date
  call : PeriodCall

/-- A close that has loaded the current period. -/
structure CloseTask where
  org : ℕ
  closeDate : Date
  current : BillingPeriod

/-- Where a request is: before a read or before a commit. -/
inductive PeriodPhase
  | reading (r : PeriodTask)
  | creating (r : PeriodTask) (start : Date)
  | rereading (r : PeriodTask) (start : Date)
  | refreshing (r : PeriodTask) (id : ℕ)
  | looking (t : CloseTask)
  | closing (t : CloseTask) (existing : Option BillingPeriod)
  | repairing (t : CloseTask)
  | reviving (t : CloseTask) (current : Option BillingPeriod)
  | reclosing (t : CloseTask) (current : Option BillingPeriod) (new : BillingPeriod)
  | stubbing (org : ℕ) (base : Date) (months : List ℕ) (created : List BillingPeriod)
  | storing (org : ℕ) (created : List BillingPeriod)

/-- Write the end of a loaded period, when it differs from the one that was loaded. -/
def setEnd (db : Planning) (loaded : BillingPeriod) (endDate : Option Date) : Planning :=
  if loaded.endDate = endDate then db
  else
    { db with
      billingPeriods :=
        db.billingPeriods.modify loaded.id (fun p => { p with endDate := endDate }) fun _ => rfl }

/-- What a request does with the current period. A close that is dated before it is refused. -/
def PeriodTask.afterCurrent (r : PeriodTask) (current : BillingPeriod) : Option PeriodPhase :=
  match r.call with
  | .getCurrentPeriod => none
  | .ensureFuturePeriods count =>
      some (.stubbing r.org current.startDate ((List.range count).map (· + 1)) [])
  | .closePeriod closeDate =>
      let closeDate := closeDate.getD r.today.prevDay
      if closeDate < current.startDate then none
      else some (.looking { org := r.org, closeDate := closeDate, current := current })

/-- The stubs a request has made so far with the one of another month, unless a period starts
there. -/
def readStub (db : Planning) (org : ℕ) (start : Date) (created : List BillingPeriod) :
    List BillingPeriod :=
  match periodAt? db org start with
  | some _ => created
  | none => created ++ [stubFrom org (cycleDayOf db org) start]

/-- Store the stubs of a request, all or, when one of their starts is taken, none. -/
def storeStubs (db : Planning) (org : ℕ) (created : List BillingPeriod) : Planning :=
  if ∃ p ∈ created, (periodAt? db org p.startDate).isSome = true then db
  else created.foldl addPeriod db

/-- End the period that a close has loaded again, when it was open then. -/
def recloseCurrent (db : Planning) (closeDate : Date) : Option BillingPeriod → Planning
  | none => db
  | some current =>
      if current.endDate = none then setEnd db current (some closeDate) else db

/-- The next step of a request. -/
def PeriodPhase.advance (db : Planning) : PeriodPhase → Planning × Option PeriodPhase
  | .reading r =>
      match openPeriods db r.org with
      | current :: _ => (db, r.afterCurrent current)
      | [] =>
          match cycleStart r.today (cycleDayOf db r.org) with
          | .ok start => (db, some (.creating r start))
          | .error _ => (db, none)
  | .creating r start =>
      if (periodAt? db r.org start).isSome = true then (db, some (.rereading r start))
      else
        (addPeriod db { orgId := r.org, startDate := start },
          some (.refreshing r db.billingPeriods.next))
  | .rereading r start => (db, (periodAt? db r.org start).map fun p => .refreshing r p.id)
  | .refreshing r id => (db, (db.billingPeriods.get? id).bind r.afterCurrent)
  | .looking t => (db, some (.closing t (periodAt? db t.org t.closeDate.nextDay)))
  | .closing t (some existing) =>
      (setEnd (setEnd db t.current (some t.closeDate)) existing none, none)
  | .closing t none =>
      if (periodAt? db t.org t.closeDate.nextDay).isSome = true then (db, some (.repairing t))
      else
        (addPeriod (setEnd db t.current (some t.closeDate))
          { orgId := t.org, startDate := t.closeDate.nextDay }, none)
  | .repairing t => (db, some (.reviving t (db.billingPeriods.get? t.current.id)))
  | .reviving t current =>
      (db, (periodAt? db t.org t.closeDate.nextDay).map (.reclosing t current))
  | .reclosing t current new => (setEnd (recloseCurrent db t.closeDate current) new none, none)
  | .stubbing org _ [] created => (db, some (.storing org created))
  | .stubbing org base (i :: months) created =>
      (db, some (.stubbing org base months
        (readStub db org (stubStart (cycleDayOf db org) base i) created)))
  | .storing org created => (storeStubs db org created, none)

/-- The requests on the billing periods of any organisations. -/
def periodSessions : Sessions Planning PeriodTask PeriodPhase where
  start := .reading
  advance := PeriodPhase.advance

end Pfv
