import Pfv.Ledger.Generation

/-!
# The schedule of a template

A template keeps its next due date and nothing of the dates before it. Weeks add up; a step by
months is clamped to the month it lands in, and the next step starts from the clamped day. After `k`
steps the schedule is in the right month, on the smallest day it was ever clamped to.

## Main definitions

* `periodsAfter`: the date `k` periods after a date, computed from that date.

## Main results

* `templateSchedule_iterate`: the due dates of a template are the iterated steps.
* `iterate_addMonths`: where steps by months lead.
* `advanceDate_iterate`: the date after `k` steps, and when it is the one computed directly.
-/

namespace Pfv

/-- The due dates of a template are its first one, advanced again and again. -/
theorem templateSchedule_iterate (r : RecurringTransaction) (k : ℕ) :
    templateSchedule.next^[k] r =
      { r with nextDueDate := (advanceDate · r.frequency)^[k] r.nextDueDate } := by
  induction k with
  | zero => rfl
  | succ k ih =>
    rw [Function.iterate_succ_apply', Function.iterate_succ_apply', ih]
    rfl

/-- The date `k` periods after a date, clamped to the last day of its month. -/
def periodsAfter (d : Date) : Frequency → ℕ → Date
  | .weekly, k => d.addDays (7 * k)
  | .biweekly, k => d.addDays (14 * k)
  | .monthly, k => d.addMonths k
  | .quarterly, k => d.addMonths (3 * k)
  | .yearly, k => d.addMonths (12 * k)

namespace Date

/-! ### Steps by days -/

theorem addDays_addDays (d : Date) (m n : ℕ) : (d.addDays m).addDays n = d.addDays (m + n) := by
  apply toOrdinal_injective
  rw [toOrdinal_addDays, toOrdinal_addDays, toOrdinal_addDays, add_assoc]

theorem iterate_addDays (d : Date) (s k : ℕ) : (·.addDays s)^[k] d = d.addDays (s * k) := by
  induction k with
  | zero => rfl
  | succ k ih => rw [Function.iterate_succ_apply', ih, addDays_addDays, Nat.mul_succ]

/-! ### Steps by months -/

@[simp] theorem addMonths_zero (d : Date) : d.addMonths 0 = d := by
  have hpos := d.month_pos
  have hle := d.month_le
  have hyear : d.year + (d.month - 1 + 0) / 12 = d.year := by omega
  have hmonth : (d.month - 1 + 0) % 12 + 1 = d.month := by omega
  cases d
  simp only [addMonths, mk.injEq] at hyear hmonth ⊢
  refine ⟨hyear, hmonth, ?_⟩
  rw [hyear, hmonth]
  exact min_eq_left ‹_›

theorem addMonths_addMonths_year (d : Date) (a b : ℕ) :
    ((d.addMonths a).addMonths b).year = (d.addMonths (a + b)).year := by
  show d.year + (d.month - 1 + a) / 12 + ((d.month - 1 + a) % 12 + 1 - 1 + b) / 12 =
    d.year + (d.month - 1 + (a + b)) / 12
  omega

theorem addMonths_addMonths_month (d : Date) (a b : ℕ) :
    ((d.addMonths a).addMonths b).month = (d.addMonths (a + b)).month := by
  show ((d.month - 1 + a) % 12 + 1 - 1 + b) % 12 + 1 = (d.month - 1 + (a + b)) % 12 + 1
  omega

theorem addMonths_day (d : Date) (k : ℕ) :
    (d.addMonths k).day = min d.day (daysInMonth (d.addMonths k).year (d.addMonths k).month) := rfl

/-- Two dates of one month are the same when their days are. -/
theorem eq_of_fields {d e : Date} (hyear : d.year = e.year) (hmonth : d.month = e.month)
    (hday : d.day = e.day) : d = e := by
  cases d
  cases e
  simp_all

/-- Steps by months lead to the month that lies as many months later, and to the smallest day on the
way, clamped from the first date. -/
theorem iterate_addMonths (d : Date) (s k : ℕ) :
    ((·.addMonths s)^[k] d).year = (d.addMonths (s * k)).year ∧
      ((·.addMonths s)^[k] d).month = (d.addMonths (s * k)).month ∧
      IsLeast ((fun i => (d.addMonths (s * i)).day) '' Set.Iic k) ((·.addMonths s)^[k] d).day := by
  induction k with
  | zero =>
    simp only [Function.iterate_zero, id_eq, Nat.mul_zero, addMonths_zero, true_and]
    refine ⟨⟨0, Set.mem_Iic.mpr le_rfl, by simp⟩, ?_⟩
    rintro _ ⟨i, hi, rfl⟩
    rw [Nat.le_zero.mp (Set.mem_Iic.mp hi)]
    simp
  | succ k ih =>
    obtain ⟨hyear, hmonth, ⟨i, hi, hday⟩, hleast⟩ := ih
    rw [Function.iterate_succ_apply']
    set e := (·.addMonths s)^[k] d with he
    have hyear' : (e.addMonths s).year = (d.addMonths (s * (k + 1))).year := by
      rw [Nat.mul_succ, ← addMonths_addMonths_year]
      show e.year + (e.month - 1 + s) / 12 = _
      rw [hyear, hmonth]
      rfl
    have hmonth' : (e.addMonths s).month = (d.addMonths (s * (k + 1))).month := by
      rw [Nat.mul_succ, ← addMonths_addMonths_month]
      show (e.month - 1 + s) % 12 + 1 = _
      rw [hmonth]
      rfl
    -- The day so far is at most the first one, so clamping either of them gives the smaller day.
    have hfirst : e.day ≤ d.day := by
      have := hleast ⟨0, Set.mem_Iic.mpr (Nat.zero_le k), rfl⟩
      simpa using this
    have hnext : (e.addMonths s).day = min e.day (d.addMonths (s * (k + 1))).day := by
      rw [addMonths_day, addMonths_day d, hyear', hmonth']
      omega
    refine ⟨hyear', hmonth', ?_, ?_⟩
    · rcases min_choice e.day (d.addMonths (s * (k + 1))).day with hmin | hmin
      · exact ⟨i, Set.mem_Iic.mpr ((Set.mem_Iic.mp hi).trans (Nat.le_succ k)),
          by rw [hnext, hmin]; exact hday⟩
      · exact ⟨k + 1, Set.mem_Iic.mpr le_rfl, by rw [hnext, hmin]⟩
    · rintro _ ⟨j, hj, rfl⟩
      rw [hnext]
      rcases Nat.le_succ_iff.mp (Set.mem_Iic.mp hj) with hj | rfl
      · exact (min_le_left _ _).trans (hleast ⟨j, Set.mem_Iic.mpr hj, rfl⟩)
      · exact min_le_right _ _

end Date

/-! ### The schedule -/

/-- The number of months of a period, for the frequencies that step by months. -/
def Frequency.months : Frequency → Option ℕ
  | .weekly | .biweekly => none
  | .monthly => some 1
  | .quarterly => some 3
  | .yearly => some 12

theorem advanceDate_of_months {freq : Frequency} {s : ℕ} (h : freq.months = some s) (d : Date)
    (k : ℕ) : advanceDate d freq = d.addMonths s ∧ periodsAfter d freq k = d.addMonths (s * k) := by
  cases freq <;> simp only [Frequency.months, Option.some_inj, reduceCtorEq] at h <;> subst h <;>
    simp [advanceDate, periodsAfter]

/-- Steps by weeks add up. Steps by months lead to the right month, on the smallest of the days
computed directly for the steps so far; this is the date computed directly when no step before was
clamped to a smaller day. -/
theorem advanceDate_iterate (d : Date) (freq : Frequency) (k : ℕ) :
    (freq.months = none → (advanceDate · freq)^[k] d = periodsAfter d freq k) ∧
    ((advanceDate · freq)^[k] d).year = (periodsAfter d freq k).year ∧
    ((advanceDate · freq)^[k] d).month = (periodsAfter d freq k).month ∧
    (freq.months ≠ none →
      IsLeast ((fun i => (periodsAfter d freq i).day) '' Set.Iic k)
        ((advanceDate · freq)^[k] d).day ∧
      ((advanceDate · freq)^[k] d = periodsAfter d freq k ↔
        ∀ i < k, (periodsAfter d freq k).day ≤ (periodsAfter d freq i).day)) := by
  have hdays : freq.months = none → (advanceDate · freq)^[k] d = periodsAfter d freq k := by
    intro h
    cases freq <;> simp only [Frequency.months, reduceCtorEq] at h
    · exact Date.iterate_addDays d 7 k
    · exact Date.iterate_addDays d 14 k
  refine ⟨hdays, ?_⟩
  cases h : freq.months with
  | none => exact ⟨by rw [hdays h], by rw [hdays h], fun hne => absurd rfl hne⟩
  | some s =>
    have hstep : (advanceDate · freq) = (·.addMonths s) :=
      funext fun d => (advanceDate_of_months h d 0).1
    have hdirect : ∀ i, periodsAfter d freq i = d.addMonths (s * i) :=
      fun i => (advanceDate_of_months h d i).2
    obtain ⟨hyear, hmonth, hleast⟩ := Date.iterate_addMonths d s k
    simp only [hstep, hdirect]
    refine ⟨hyear, hmonth, fun _ => ⟨hleast, ?_⟩⟩
    obtain ⟨⟨i, hi, hday⟩, hlower⟩ := hleast
    constructor
    · intro heq j hj
      rw [← heq]
      exact hlower ⟨j, Set.mem_Iic.mpr hj.le, rfl⟩
    · intro hsmallest
      refine Date.eq_of_fields hyear hmonth (le_antisymm ?_ ?_)
      · exact hlower ⟨k, Set.mem_Iic.mpr le_rfl, rfl⟩
      · rcases (Set.mem_Iic.mp hi).lt_or_eq with hlt | rfl
        · exact (hsmallest i hlt).trans_eq hday
        · exact hday.le

def sampleJanuary31 : Date := .of 2026 1 31

/-- A monthly template that starts on January 31 is due on March 28 after two months, not on
March 31. -/
theorem advanceDate_iterate_ne_periodsAfter :
    ((advanceDate · .monthly)^[2] sampleJanuary31).day = 28 ∧
      (periodsAfter sampleJanuary31 .monthly 2).day = 31 ∧
      (advanceDate · .monthly)^[2] sampleJanuary31 ≠ periodsAfter sampleJanuary31 .monthly 2 := by
  decide

end Pfv
