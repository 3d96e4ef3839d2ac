import Mathlib.Tactic

/-!
# Calendar dates and recurring frequencies

A date of the proleptic Gregorian calendar with its ordinal number, and the date one period of a
recurring template later (`backend/app/services/date_utils.py`). Dates are compared, and the days
between two dates are counted, through the ordinal number, as `datetime.date` does.

## Main definitions

* `Date`, `Date.toOrdinal`, `Date.addDays`, `Date.prevDay`, `Date.addMonths`, `Date.onDay`.
* `Frequency`, `advanceDate`.

## Main results

* `Date.toOrdinal_nextDay`, `Date.toOrdinal_addDays`: adding days adds to the ordinal number.
* `Date.toOrdinal_injective`: dates are determined by their ordinal number.
* `Date.lt_advanceDate`: a template moves to a later date in every period.
-/

namespace Pfv

/-- Whether a year of the Gregorian calendar has 366 days. -/
def isLeap (y : ℕ) : Bool :=
  y % 4 = 0 ∧ (y % 100 ≠ 0 ∨ y % 400 = 0)

/-- The number of days of a month, counted from 1. -/
def daysInMonth (y m : ℕ) : ℕ :=
  if m = 0 then 0
  else if m = 2 then (if isLeap y then 29 else 28)
  else if m = 4 ∨ m = 6 ∨ m = 9 ∨ m = 11 then 30
  else 31

/-- A date of the calendar. -/
structure Date where
  year : ℕ
  month : ℕ
  day : ℕ
  year_pos : 1 ≤ year
  month_pos : 1 ≤ month
  month_le : month ≤ 12
  day_pos : 1 ≤ day
  day_le : day ≤ daysInMonth year month
  deriving DecidableEq

theorem le_daysInMonth {y m : ℕ} (hm : 1 ≤ m) : 28 ≤ daysInMonth y m := by
  unfold daysInMonth
  split_ifs <;> omega

/-- The days of the months before month `m` of a year. -/
def daysBeforeMonth (y : ℕ) : ℕ → ℕ
  | 0 => 0
  | m + 1 => daysBeforeMonth y m + daysInMonth y m

/-- The days of the years before year `y`. -/
def daysBeforeYear (y : ℕ) : ℕ :=
  (y - 1) * 365 + (y - 1) / 4 - (y - 1) / 100 + (y - 1) / 400

namespace Date

/-- The ordinal number of a date: January 1 of year 1 is day 1. -/
def toOrdinal (d : Date) : ℕ :=
  daysBeforeYear d.year + daysBeforeMonth d.year d.month + d.day

instance : LE Date := ⟨fun a b => a.toOrdinal ≤ b.toOrdinal⟩

instance : LT Date := ⟨fun a b => a.toOrdinal < b.toOrdinal⟩

instance (a b : Date) : Decidable (a ≤ b) := inferInstanceAs (Decidable (_ ≤ _))

instance (a b : Date) : Decidable (a < b) := inferInstanceAs (Decidable (_ < _))

theorem le_iff {a b : Date} : a ≤ b ↔ a.toOrdinal ≤ b.toOrdinal := Iff.rfl

theorem lt_iff {a b : Date} : a < b ↔ a.toOrdinal < b.toOrdinal := Iff.rfl

/-- The number of days between two dates, whichever comes first. -/
def daysApart (a b : Date) : ℕ :=
  ((a.toOrdinal : ℤ) - b.toOrdinal).natAbs

/-- The following day. -/
def nextDay (d : Date) : Date :=
  if h : d.day < daysInMonth d.year d.month then
    { d with day := d.day + 1, day_pos := by omega, day_le := h }
  else if h' : d.month < 12 then
    { year := d.year, month := d.month + 1, day := 1
      year_pos := d.year_pos, month_pos := by omega, month_le := h', day_pos := le_rfl
      day_le := le_trans (by omega) (le_daysInMonth (by omega)) }
  else
    { year := d.year + 1, month := 1, day := 1
      year_pos := by omega, month_pos := le_rfl, month_le := by omega, day_pos := le_rfl
      day_le := le_trans (by omega) (le_daysInMonth le_rfl) }

/-- The date `n` days later. -/
def addDays (d : Date) : ℕ → Date
  | 0 => d
  | n + 1 => (d.addDays n).nextDay

/-- The day before; the calendar begins with January 1 of year 1. -/
def prevDay (d : Date) : Date :=
  if h : 1 < d.day then
    { d with day := d.day - 1, day_pos := by omega, day_le := by have := d.day_le; omega }
  else if h' : 1 < d.month then
    { year := d.year, month := d.month - 1, day := daysInMonth d.year (d.month - 1)
      year_pos := d.year_pos, month_pos := by omega
      month_le := by have := d.month_le; omega
      day_pos := le_trans (by omega) (le_daysInMonth (by omega)), day_le := le_rfl }
  else if h'' : 1 < d.year then
    { year := d.year - 1, month := 12, day := daysInMonth (d.year - 1) 12
      year_pos := by omega, month_pos := by omega, month_le := le_rfl
      day_pos := le_trans (by omega) (le_daysInMonth (by omega)), day_le := le_rfl }
  else d

/-- The date with a given year, month and day, if there is one. -/
def of? (year month day : ℕ) : Option Date :=
  if h : 1 ≤ year ∧ 1 ≤ month ∧ month ≤ 12 ∧ 1 ≤ day ∧ day ≤ daysInMonth year month then
    some ⟨year, month, day, h.1, h.2.1, h.2.2.1, h.2.2.2.1, h.2.2.2.2⟩
  else none

/-- The date with a given year, month and day, or the first one when there is none. -/
def of (year month day : ℕ) : Date :=
  (of? year month day).getD ⟨1, 1, 1, le_rfl, le_rfl, by decide, le_rfl, by decide⟩

/-- The date of the same month on another day, clamped to the days the month has. -/
def onDay (d : Date) (day : ℕ) : Date where
  year := d.year
  month := d.month
  day := max 1 (min day (daysInMonth d.year d.month))
  year_pos := d.year_pos
  month_pos := d.month_pos
  month_le := d.month_le
  day_pos := le_max_left _ _
  day_le := max_le (le_trans (by omega) (le_daysInMonth d.month_pos)) (min_le_right _ _)

/-- The date `k` calendar months later, with the day clamped to the last of its month, as
`relativedelta(months=k)` gives it. -/
def addMonths (d : Date) (k : ℕ) : Date where
  year := d.year + (d.month - 1 + k) / 12
  month := (d.month - 1 + k) % 12 + 1
  day := min d.day (daysInMonth (d.year + (d.month - 1 + k) / 12) ((d.month - 1 + k) % 12 + 1))
  year_pos := le_trans d.year_pos (Nat.le_add_right _ _)
  month_pos := by omega
  month_le := by omega
  day_pos := le_min d.day_pos (le_trans (by omega) (le_daysInMonth (by omega)))
  day_le := min_le_right _ _

/-- The date `k` calendar months earlier, with the day clamped to the last of its month. The
calendar begins with year 1. -/
def subMonths (d : Date) (k : ℕ) : Date where
  year := max 1 ((d.year * 12 + (d.month - 1) - k) / 12)
  month := (d.year * 12 + (d.month - 1) - k) % 12 + 1
  day := min d.day (daysInMonth (max 1 ((d.year * 12 + (d.month - 1) - k) / 12))
    ((d.year * 12 + (d.month - 1) - k) % 12 + 1))
  year_pos := le_max_left _ _
  month_pos := by omega
  month_le := by omega
  day_pos := le_min d.day_pos (le_trans (by omega) (le_daysInMonth (by omega)))
  day_le := min_le_right _ _

/-! ### Ordinal numbers -/

theorem daysBeforeMonth_thirteen (y : ℕ) :
    daysBeforeMonth y 13 = 365 + if isLeap y then 1 else 0 := by
  cases h : isLeap y <;> simp [daysBeforeMonth, daysInMonth, h]

theorem daysBeforeYear_succ {y : ℕ} (hy : 1 ≤ y) :
    daysBeforeYear (y + 1) = daysBeforeYear y + 365 + if isLeap y then 1 else 0 := by
  obtain ⟨n, rfl⟩ : ∃ n, y = n + 1 := ⟨y - 1, by omega⟩
  have h4 := Nat.succ_div (a := n) (b := 4)
  have h100 := Nat.succ_div (a := n) (b := 100)
  have h400 := Nat.succ_div (a := n) (b := 400)
  have hle : n / 100 ≤ n / 4 := Nat.div_le_div_left (by omega) (by omega)
  have hle' : (n + 1) / 100 ≤ (n + 1) / 4 := Nat.div_le_div_left (by omega) (by omega)
  have hdvd : 100 ∣ n + 1 → 4 ∣ n + 1 := Dvd.dvd.trans ⟨25, rfl⟩
  have hdvd' : 400 ∣ n + 1 → 100 ∣ n + 1 := Dvd.dvd.trans ⟨4, rfl⟩
  have hleap : isLeap (n + 1) = true ↔ 4 ∣ n + 1 ∧ (¬100 ∣ n + 1 ∨ 400 ∣ n + 1) := by
    simp [isLeap, Nat.dvd_iff_mod_eq_zero]
  simp only [daysBeforeYear, Nat.add_sub_cancel, hleap]
  by_cases d4 : 4 ∣ n + 1 <;> by_cases d100 : 100 ∣ n + 1 <;> by_cases d400 : 400 ∣ n + 1 <;>
    simp only [d4, d100, d400, if_true, if_false] at h4 h100 h400 hdvd hdvd' ⊢ <;>
    simp only [not_true, not_false_iff, or_true, or_false, and_true, if_true, if_false,
      and_false] <;>
    omega

theorem toOrdinal_nextDay (d : Date) : d.nextDay.toOrdinal = d.toOrdinal + 1 := by
  have hday := d.day_le
  have hmonth := d.month_le
  unfold nextDay
  split_ifs with h h'
  · simp only [toOrdinal]
    omega
  · simp only [toOrdinal, daysBeforeMonth]
    omega
  · have hm : d.month = 12 := by omega
    have hyear := daysBeforeMonth_thirteen d.year
    simp only [toOrdinal, daysBeforeYear_succ d.year_pos]
    simp only [daysBeforeMonth, hm] at h hday hyear ⊢
    simp only [daysInMonth] at h hday hyear ⊢
    simp at h hday hyear ⊢
    omega

theorem toOrdinal_addDays (d : Date) (n : ℕ) : (d.addDays n).toOrdinal = d.toOrdinal + n := by
  induction n with
  | zero => rfl
  | succ n ih => rw [addDays, toOrdinal_nextDay, ih, Nat.add_assoc]

theorem daysBeforeMonth_mono (y : ℕ) : Monotone (daysBeforeMonth y) :=
  monotone_nat_of_le_succ fun _ => Nat.le_add_right _ _

theorem daysBeforeYear_mono : MonotoneOn daysBeforeYear (Set.Ici 1) := by
  intro a ha b _ hab
  induction b, hab using Nat.le_induction with
  | base => exact le_rfl
  | succ b hb ih =>
    have hb1 : 1 ≤ b := le_trans ha hb
    rw [daysBeforeYear_succ hb1]
    exact le_trans (ih hb1) (by omega)

/-- A date lies before every date of a later month. -/
theorem lt_of_month_lt {a b : Date}
    (h : a.year < b.year ∨ (a.year = b.year ∧ a.month < b.month)) : a < b := by
  have hday := a.day_le
  have hpos := b.day_pos
  rw [lt_iff, toOrdinal, toOrdinal]
  rcases h with h | ⟨hy, hm⟩
  · have hend : daysBeforeMonth a.year (a.month + 1) ≤ daysBeforeMonth a.year 13 :=
      daysBeforeMonth_mono _ (by have := a.month_le; omega)
    rw [daysBeforeMonth, daysBeforeMonth_thirteen] at hend
    have hnext := daysBeforeYear_succ a.year_pos
    have hyear := daysBeforeYear_mono (Set.mem_Ici.mpr (by omega : 1 ≤ a.year + 1))
      (Set.mem_Ici.mpr b.year_pos) h
    omega
  · have hstep : daysBeforeMonth a.year (a.month + 1) ≤ daysBeforeMonth a.year b.month :=
      daysBeforeMonth_mono _ hm
    rw [daysBeforeMonth] at hstep
    rw [← hy]
    omega

theorem toOrdinal_injective : Function.Injective toOrdinal := by
  intro a b h
  have hlt : ¬a < b := by rw [lt_iff, h]; exact lt_irrefl _
  have hgt : ¬b < a := by rw [lt_iff, h]; exact lt_irrefl _
  have hyear : a.year = b.year := by
    by_contra hne
    rcases Nat.lt_or_gt_of_ne hne with hy | hy
    · exact hlt (lt_of_month_lt (.inl hy))
    · exact hgt (lt_of_month_lt (.inl hy))
  have hmonth : a.month = b.month := by
    by_contra hne
    rcases Nat.lt_or_gt_of_ne hne with hm | hm
    · exact hlt (lt_of_month_lt (.inr ⟨hyear, hm⟩))
    · exact hgt (lt_of_month_lt (.inr ⟨hyear.symm, hm⟩))
  have hday : a.day = b.day := by
    rw [toOrdinal, toOrdinal, hyear, hmonth] at h
    omega
  cases a
  cases b
  simp_all

/-- The day before a day is followed by it. -/
theorem nextDay_prevDay {d : Date} (h : 1 < d.toOrdinal) : d.prevDay.nextDay = d := by
  apply toOrdinal_injective
  rw [toOrdinal_nextDay]
  have hday := d.day_pos
  have hmonth := d.month_pos
  unfold prevDay
  split_ifs with h₁ h₂ h₃
  · simp only [toOrdinal]
    omega
  · obtain ⟨m, hm⟩ : ∃ m, d.month = m + 1 := ⟨d.month - 1, by omega⟩
    simp only [toOrdinal, hm, Nat.add_sub_cancel, daysBeforeMonth]
    omega
  · obtain ⟨y, hy⟩ : ∃ y, d.year = y + 1 := ⟨d.year - 1, by omega⟩
    have hm : d.month = 1 := by omega
    have hyear := daysBeforeMonth_thirteen y
    have hnext := daysBeforeYear_succ (y := y) (by omega)
    have hfirst : daysBeforeMonth (y + 1) 1 = 0 := by simp [daysBeforeMonth, daysInMonth]
    rw [daysBeforeMonth] at hyear
    simp only [toOrdinal, hy, hm, Nat.add_sub_cancel, hfirst]
    omega
  · have hfirst : daysBeforeMonth d.year 1 = 0 := by simp [daysBeforeMonth, daysInMonth]
    have hm : d.month = 1 := by omega
    have hy : d.year = 1 := by have := d.year_pos; omega
    rw [toOrdinal, hm, hfirst, hy, show daysBeforeYear 1 = 0 from rfl] at h
    omega

theorem toOrdinal_prevDay {d : Date} (h : 1 < d.toOrdinal) :
    d.prevDay.toOrdinal + 1 = d.toOrdinal := by
  rw [← toOrdinal_nextDay, nextDay_prevDay h]

theorem lt_addDays (d : Date) {n : ℕ} (hn : 0 < n) : d < d.addDays n := by
  rw [lt_iff, toOrdinal_addDays]
  omega

theorem lt_addMonths (d : Date) {k : ℕ} (hk : 0 < k) : d < d.addMonths k := by
  have := d.month_pos
  have := d.month_le
  refine lt_of_month_lt ?_
  simp only [addMonths]
  omega

end Date

/-- How often a recurring template falls due. -/
inductive Frequency
  | weekly
  | biweekly
  | monthly
  | quarterly
  | yearly
  deriving DecidableEq

/-- The date one period later. -/
def advanceDate (current : Date) : Frequency → Date
  | .weekly => current.addDays 7
  | .biweekly => current.addDays 14
  | .monthly => current.addMonths 1
  | .quarterly => current.addMonths 3
  | .yearly => current.addMonths 12

/-- Every period moves a template to a later date. -/
theorem Date.lt_advanceDate (d : Date) (freq : Frequency) : d < advanceDate d freq := by
  cases freq with
  | weekly => exact d.lt_addDays (by omega)
  | biweekly => exact d.lt_addDays (by omega)
  | monthly => exact d.lt_addMonths (by omega)
  | quarterly => exact d.lt_addMonths (by omega)
  | yearly => exact d.lt_addMonths (by omega)

end Pfv
