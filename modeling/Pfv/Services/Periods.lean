import Pfv.Models.Books
import Pfv.Models.Members
import Pfv.Base.Guard

/-!
# Billing periods

The billing periods of an organisation (`backend/app/services/billing_service.py`) and the change of
its billing cycle (`backend/app/routers/settings.py`). Reading the open period creates and commits
the first one, so an operation that fails afterwards still leaves it behind: an operation is given
by the database it leaves and by its result. Requests are served one after another here; the
branches for an insert that lost a race are those a key that is taken leads to.

## Main definitions

* `Planning`: the books with the organisations and their billing periods.
* `getCurrentPeriod`, `resolvePeriod`, `ensureFuturePeriods`, `closePeriod`, `updateBillingCycle`.
-/

namespace Pfv

/-- The books with the organisations and their billing periods. -/
structure Planning extends Books where
  organizations : Table Organization
  billingPeriods : Table BillingPeriod

/-- The database an operation leaves committed, and its result. -/
abbrev Outcome (α : Type) := Planning × Except ServiceError α

/-! ### Days of the cycle -/

/-- The error of a date that the calendar does not have. -/
def dayOutOfRange : ServiceError := .schema "day is out of range for month"

/-- The last cycle day up to a date. -/
def cycleStart (today : Date) (cycleDay : ℕ) : Except ServiceError Date :=
  if cycleDay ≤ today.day then
    orRaise (Date.of? today.year today.month cycleDay) dayOutOfRange
  else if 1 < today.month then
    orRaise (Date.of? today.year (today.month - 1) cycleDay) dayOutOfRange
  else orRaise (Date.of? (today.year - 1) 12 cycleDay) dayOutOfRange

/-! ### Reading periods -/

/-- The open periods of an organisation, the latest first. -/
def openPeriods (db : Planning) (org : ℕ) : List BillingPeriod :=
  (db.billingPeriods.rows.filter fun p => p.orgId = org ∧ p.endDate = none).insertionSort
    fun p q => q.startDate ≤ p.startDate

/-- The period of an organisation with a given start. -/
def periodAt? (db : Planning) (org : ℕ) (start : Date) : Option BillingPeriod :=
  db.billingPeriods.rows.find? fun p => p.orgId = org ∧ p.startDate = start

/-- The cycle day of an organisation. -/
def cycleDayOf (db : Planning) (org : ℕ) : ℕ :=
  ((db.organizations.get? org).map (·.billingCycleDay)).getD 1

/-- Store a new period. -/
def addPeriod (db : Planning) (p : BillingPeriod) : Planning :=
  { db with billingPeriods := db.billingPeriods.insert p }

/-- Write a period back. -/
def putPeriod (db : Planning) (p : BillingPeriod) : Planning :=
  { db with billingPeriods := db.billingPeriods.put p }

/-- Create the first period. When its start is taken, the period with that start is used. -/
def createCurrentPeriod (db : Planning) (org : ℕ) (start : Date) : Planning × BillingPeriod :=
  match periodAt? db org start with
  | some p => (db, p)
  | none =>
      let p : BillingPeriod := { orgId := org, startDate := start }
      (addPeriod db p, { p with id := db.billingPeriods.next })

/-- The currently open period. If there is none, it is created from the cycle day. -/
def getCurrentPeriod (db : Planning) (org : ℕ) (today : Date) :
    Except ServiceError (Planning × BillingPeriod) :=
  match openPeriods db org with
  | p :: _ => pure (db, p)
  | [] => do
      let start ← cycleStart today (cycleDayOf db org)
      pure (createCurrentPeriod db org start)

/-- Continue with the open period. What `getCurrentPeriod` committed stays when the rest fails. -/
def withCurrentPeriod {α : Type} (db : Planning) (org : ℕ) (today : Date)
    (f : Planning → BillingPeriod → Except ServiceError (Planning × α)) : Outcome α :=
  match getCurrentPeriod db org today with
  | .error e => (db, .error e)
  | .ok (db', current) =>
      match f db' current with
      | .error e => (db', .error e)
      | .ok (db'', a) => (db'', .ok a)

/-- The period with a given start, or the open one. -/
def resolvePeriod (db : Planning) (org : ℕ) (today : Date) :
    Option Date → Except ServiceError (Planning × BillingPeriod)
  | some start => do
      let p ← orRaise (periodAt? db org start) (.validation "Billing period not found")
      pure (db, p)
  | none => getCurrentPeriod db org today

/-! ### Future periods -/

/-- The start of the `i`-th month of the cycle after a date. -/
def stubStart (cycleDay : ℕ) (base : Date) (i : ℕ) : Date :=
  (base.addMonths i).onDay cycleDay

/-- The stub that starts on a date and lasts until the next cycle day. -/
def stubFrom (org cycleDay : ℕ) (start : Date) : BillingPeriod where
  orgId := org
  startDate := start
  endDate := some ((start.addMonths 1).onDay cycleDay).prevDay

/-- Create the stub of one month, unless a period starts there. -/
def ensureStub (org cycleDay : ℕ) (base : Date) (s : Planning × List BillingPeriod) (i : ℕ) :
    Planning × List BillingPeriod :=
  match periodAt? s.1 org (stubStart cycleDay base i) with
  | some _ => s
  | none =>
      let stub := stubFrom org cycleDay (stubStart cycleDay base i)
      (addPeriod s.1 stub, s.2 ++ [{ stub with id := s.1.billingPeriods.next }])

/-- Create stub periods for the months after the current one. Returns those that were created. -/
def ensureFuturePeriods (db : Planning) (org : ℕ) (today : Date) (count : ℕ) :
    Outcome (List BillingPeriod) :=
  withCurrentPeriod db org today fun db current =>
    pure (((List.range count).map (· + 1)).foldl
      (ensureStub org (cycleDayOf db org) current.startDate) (db, []))

/-! ### Closing -/

/-- Close the open period on a date and open the one that starts the day after: a period that starts
there is revived. -/
def closeCurrent (org : ℕ) (closeDate : Date) (db : Planning) (current : BillingPeriod) :
    Except ServiceError (Planning × BillingPeriod) := do
  raiseIf (closeDate < current.startDate)
    (.validation "Close date cannot be before the period start date")
  let db := putPeriod db { current with endDate := some closeDate }
  match periodAt? db org closeDate.nextDay with
  | some existing =>
      let revived := { existing with endDate := none }
      pure (putPeriod db revived, revived)
  | none =>
      let new : BillingPeriod := { orgId := org, startDate := closeDate.nextDay }
      pure (addPeriod db new, { new with id := db.billingPeriods.next })

/-- Close the open period; without a date, yesterday. Returns the new open period. -/
def closePeriod (db : Planning) (org : ℕ) (today : Date) (closeDate : Option Date) :
    Outcome BillingPeriod :=
  withCurrentPeriod db org today (closeCurrent org (closeDate.getD today.prevDay))

/-! ### The billing cycle -/

/-- `BillingCycleUpdate`. -/
structure BillingCycleUpdate where
  billingCycleDay : ℕ
  ge : 1 ≤ billingCycleDay
  le : billingCycleDay ≤ 28

/-- Store the cycle day of an organisation. -/
def setCycleDay (db : Planning) (org day : ℕ) : Planning :=
  { db with
    organizations := db.organizations.modify org (fun o => { o with billingCycleDay := day })
      fun _ => rfl }

/-- The database refuses a second period with the same organisation and start. -/
def periodKeyTaken : ServiceError := .database "uq_billing_period_org_start"

/-- Move the start of a period. The key of organisation and start refuses a start that another
period has. -/
def movePeriod (db : Planning) (p : BillingPeriod) (start : Date) :
    Except ServiceError Planning := do
  raiseIf (∃ q ∈ db.billingPeriods.rows, q.id ≠ p.id ∧ q.orgId = p.orgId ∧ q.startDate = start)
    periodKeyTaken
  pure (putPeriod db { p with startDate := start })

/-- The budgets of an organisation with one start, moved to another. -/
def Budget.moveStart (org : ℕ) (old new : Date) (b : Budget) : Budget :=
  if b.orgId = org ∧ b.periodStart = old then { b with periodStart := new } else b

/-- Move the budgets tied to an old start. The key of organisation, category and start refuses a
second budget of a category. -/
def moveBudgets (db : Planning) (org : ℕ) (old new : Date) : Except ServiceError Planning := do
  let budgets := db.budgets.mapRows (Budget.moveStart org old new) fun b => by
    unfold Budget.moveStart
    split_ifs <;> rfl
  raiseIf (¬(budgets.rows.map fun b => (b.orgId, b.categoryId, b.periodStart)).Nodup)
    (.database "uq_budget_org_cat_period")
  pure { db with budgets := budgets }

/-- Recalculate the open period, and the budgets tied to its start, to match a new cycle day. -/
def recalculatePeriod (org : ℕ) (today : Date) (newDay : ℕ) (db : Planning)
    (current : BillingPeriod) : Except ServiceError Planning :=
  if current.endDate = none then do
    let newStart ← cycleStart today newDay
    let db ← movePeriod db current newStart
    if current.startDate ≠ newStart then moveBudgets db org current.startDate newStart
    else pure db
  else pure db

/-- There is no open period, and the first one would start where a closed one does. -/
def firstPeriodTaken (db : Planning) (org : ℕ) (today : Date) : Bool :=
  (openPeriods db org).isEmpty &&
    ((cycleStart today (cycleDayOf db org)).toOption.bind (periodAt? db org)).isSome

/-- Change the billing cycle. The new day is pending while the open period is read; it is committed
with the period when that is created then, and with the rest otherwise. An insert that lost a race
is rolled back together with the new day, and expires the organisation that the answer reads. -/
def updateBillingCycle (db : Planning) (org : ℕ) (today : Date) (body : BillingCycleUpdate) :
    Outcome Unit :=
  match db.organizations.get? org with
  | none => (db, .error (.database "NoResultFound"))
  | some _ =>
      let staged := setCycleDay db org body.billingCycleDay
      if firstPeriodTaken staged org today then (db, .error .missingGreenlet)
      else
        match getCurrentPeriod staged org today with
        | .error e => (db, .error e)
        | .ok (read, current) =>
            match recalculatePeriod org today body.billingCycleDay read current with
            | .error e => (if openPeriods db org = [] then read else db, .error e)
            | .ok db' => (db', .ok ())

end Pfv
