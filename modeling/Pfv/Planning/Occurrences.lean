import Pfv.Ledger.Generation
import Pfv.Planning.Plans
import Pfv.Services.Projections

/-!
# Recurring amounts of a period

The occurrences of a template within a period are its due date, moved on again and again, as long as
it lies in the period. Populating an empty plan adds up just these. The forecast of a period adds up
what falls due before the period as well.

## Main definitions

* `occurrences`, `occurrenceTotal`: the occurrences within a period and what they add up to.
* `NoneOverdue`: no template with an amount falls due before a period.
* `SuggestionsFit`: the amounts that populating an empty plan derives fit their column.

## Main results

* `recurringTotal_eq`, `upcomingAmount_eq`: what the two services add up for a template.
* `exists_populated_iff`, `populated_eq_occurrenceTotal`: populating an empty plan succeeds when the
  derived amounts fit, and adds up the occurrences.
* `forecast_eq_occurrences_iff`: the forecast does exactly when none is overdue.
-/

namespace Pfv

/-! ### Occurrences -/

/-- The occurrences of a template within a period. -/
def occurrences (p : BillingPeriod) (r : RecurringTransaction) : List RecurringTransaction :=
  (templateSchedule.due p.endOrdinal r).filter fun o => p.startDate ≤ o.nextDueDate

/-- What the occurrences of a template within a period add up to. -/
def occurrenceAmount (p : BillingPeriod) (r : RecurringTransaction) : ℤ :=
  ((occurrences p r).map (·.amount)).sum

/-- The active templates of an organisation. -/
def activeTemplates (db : Db) (org : ℕ) : List RecurringTransaction :=
  db.recurring.rows.filter fun r => r.orgId = org ∧ r.isActive = true

/-- What the occurrences of the active templates of a type add up to. -/
def occurrenceTotal (db : Db) (org : ℕ) (p : BillingPeriod) (type : EntryType) : ℤ :=
  (((activeTemplates db org).filter (·.type = type)).map (occurrenceAmount p)).sum

variable {p q : BillingPeriod} {r o : RecurringTransaction}

/-- The occurrences are the iterated due dates within the period. -/
theorem mem_occurrences :
    o ∈ occurrences p r ↔ (∃ n, templateSchedule.next^[n] r = o) ∧ p.startDate ≤ o.nextDueDate ∧
      o.nextDueDate.toOrdinal ≤ p.endOrdinal := by
  have hdue : o ∈ templateSchedule.due p.endOrdinal r ↔
      (∃ n, templateSchedule.next^[n] r = o) ∧ o.nextDueDate.toOrdinal ≤ p.endOrdinal :=
    Schedule.mem_due
  rw [occurrences, List.mem_filter, hdue, decide_eq_true_eq, and_right_comm, and_assoc]

/-- No occurrence lies in a period and in a later one. -/
theorem disjoint_occurrences (hlater : p.endOrdinal < q.startDate.toOrdinal)
    (r : RecurringTransaction) : (occurrences p r).Disjoint (occurrences q r) := by
  intro o hp hq
  have hend := (mem_occurrences.mp hp).2.2
  have hstart := Date.le_iff.mp (mem_occurrences.mp hq).2.1
  omega

/-! ### What the services add up -/

theorem dueTotal_eq (last fuel : ℕ) (r : RecurringTransaction) :
    dueTotal last r.frequency r.amount fuel r.nextDueDate =
      ((templateSchedule.dueWithin last fuel r).map (·.amount)).sum := by
  induction fuel generalizing r with
  | zero => rfl
  | succ fuel ih =>
    rw [dueTotal, Schedule.dueWithin]
    split_ifs with hdue hdue' hdue'
    · rw [List.map_cons, List.sum_cons, ← ih (templateSchedule.next r)]
      rfl
    · exact absurd hdue hdue'
    · exact absurd hdue' hdue
    · rfl

/-- The forecast adds up all that falls due until the end of the period. -/
theorem upcomingAmount_eq (p : BillingPeriod) (r : RecurringTransaction) :
    upcomingAmount p r = ((templateSchedule.due p.endOrdinal r).map (·.amount)).sum :=
  dueTotal_eq p.endOrdinal _ r

/-- The template with another due date. -/
def RecurringTransaction.dueOn (r : RecurringTransaction) (d : Date) : RecurringTransaction :=
  { r with nextDueDate := d }

/-- What is left from the first date on that is not before the period. -/
theorem due_skipBefore {start last fuel : ℕ} (hfuel : start - r.nextDueDate.toOrdinal ≤ fuel) :
    templateSchedule.due last (r.dueOn (skipBefore start last r.frequency fuel r.nextDueDate)) =
      (templateSchedule.due last r).filter fun o => start ≤ o.nextDueDate.toOrdinal := by
  have hall : ∀ r : RecurringTransaction, ¬(r.nextDueDate.toOrdinal < start ∧
      r.nextDueDate.toOrdinal ≤ last) →
      templateSchedule.due last r =
        (templateSchedule.due last r).filter fun o => start ≤ o.nextDueDate.toOrdinal := by
    intro r hr
    refine (List.filter_eq_self.mpr fun o ho => decide_eq_true ?_).symm
    have htime : r.nextDueDate.toOrdinal ≤ o.nextDueDate.toOrdinal ∧
      o.nextDueDate.toOrdinal ≤ last := Schedule.time_mem_due ho
    omega
  induction fuel generalizing r with
  | zero => exact hall r (by omega)
  | succ fuel ih =>
    rw [skipBefore]
    split_ifs with hdue
    · have hlater : r.nextDueDate.toOrdinal < (advanceDate r.nextDueDate r.frequency).toOrdinal :=
        templateSchedule.time_lt r
      have hnext := ih (r := templateSchedule.next r)
        (by change start - (advanceDate r.nextDueDate r.frequency).toOrdinal ≤ fuel; omega)
      have htime : templateSchedule.time r ≤ last := hdue.2
      rw [Schedule.due_of_le htime, List.filter_cons_of_neg (by simpa using hdue.1), ← hnext]
      rfl
    · exact hall r hdue

/-- A plan adds up the occurrences within its period. -/
theorem recurringTotal_eq (p : BillingPeriod) (r : RecurringTransaction) :
    recurringTotal p r = occurrenceAmount p r := by
  rw [recurringTotal, occurrenceAmount, occurrences]
  simp only [Date.le_iff]
  rw [← due_skipBefore (Nat.le_refl _)]
  generalize skipBefore p.startDate.toOrdinal p.endOrdinal r.frequency
    (p.startDate.toOrdinal - r.nextDueDate.toOrdinal) r.nextDueDate = first
  exact dueTotal_eq p.endOrdinal (p.endOrdinal + 1 - first.toOrdinal) (r.dueOn first)

/-! ### The forecast of a period -/

/-- The amounts of all turns of a template are its amount. -/
theorem amount_of_mem_due {last : ℕ} (ho : o ∈ templateSchedule.due last r) : o.amount = r.amount :=
  Schedule.forall_mem_due (p := fun o => o.amount = r.amount) (fun _ h => h) rfl o ho

theorem sum_amount {l : List RecurringTransaction} (h : ∀ o ∈ l, o.amount = r.amount) :
    (l.map (·.amount)).sum = l.length * r.amount := by
  rw [List.map_congr_left h, List.map_const', List.sum_replicate, nsmul_eq_mul]

/-- The forecast adds up no less than the occurrences for a template, and just these when the
template has no amount or does not fall due before the period. -/
theorem occurrenceAmount_le (hamount : 0 ≤ r.amount) :
    occurrenceAmount p r ≤ upcomingAmount p r ∧
      (upcomingAmount p r = occurrenceAmount p r ↔
        (0 < r.amount → r.nextDueDate.toOrdinal ≤ p.endOrdinal → p.startDate ≤ r.nextDueDate)) := by
  set all := templateSchedule.due p.endOrdinal r with hall
  have hupcoming : upcomingAmount p r = all.length * r.amount := by
    rw [upcomingAmount_eq]
    exact sum_amount fun o ho => amount_of_mem_due ho
  have hwithin : occurrenceAmount p r = (occurrences p r).length * r.amount :=
    sum_amount fun o ho => amount_of_mem_due (List.mem_of_mem_filter ho)
  have hlength : (occurrences p r).length ≤ all.length := List.length_filter_le _ _
  -- The lists are as long exactly when the first turn is not before the period.
  have hlengthIff : (occurrences p r).length = all.length ↔
      (r.nextDueDate.toOrdinal ≤ p.endOrdinal → p.startDate ≤ r.nextDueDate) := by
    rw [occurrences, List.length_filter_eq_length_iff]
    simp only [decide_eq_true_eq]
    constructor
    · intro h hdue
      have htime : templateSchedule.time r ≤ p.endOrdinal := hdue
      exact h r (by rw [Schedule.due_of_le htime]; exact List.mem_cons_self)
    · intro h o ho
      have htime : r.nextDueDate.toOrdinal ≤ o.nextDueDate.toOrdinal ∧
        o.nextDueDate.toOrdinal ≤ p.endOrdinal := Schedule.time_mem_due ho
      have hstart := Date.le_iff.mp (h (htime.1.trans htime.2))
      exact Date.le_iff.mpr (hstart.trans htime.1)
  rw [hupcoming, hwithin]
  refine ⟨mul_le_mul_of_nonneg_right (by exact_mod_cast hlength) hamount, ?_⟩
  rcases hamount.eq_or_lt with hzero | hpos
  · simp [← hzero]
  · rw [← hlengthIff, mul_left_inj' hpos.ne', Nat.cast_inj, eq_comm]
    exact ⟨fun h _ => h, fun h => h hpos⟩

variable {db : Db} {org : ℕ} {today : Date} {type : EntryType}

/-- A template that is due after the period adds nothing to it. -/
theorem upcomingAmount_of_lt (h : p.endOrdinal < r.nextDueDate.toOrdinal) :
    upcomingAmount p r = 0 ∧ occurrenceAmount p r = 0 := by
  have hnone : templateSchedule.due p.endOrdinal r = [] := Schedule.due_of_lt h
  rw [upcomingAmount_eq, occurrenceAmount, occurrences, hnone]
  exact ⟨rfl, rfl⟩

/-- When all templates are due later than today, the forecast adds up all that falls due until the
end of the period. -/
theorem upcomingTotal_eq (hlater : ∀ r ∈ activeTemplates db org, today < r.nextDueDate) :
    upcomingTotal db org today p type =
      (((activeTemplates db org).filter (·.type = type)).map (upcomingAmount p)).sum := by
  have hupcoming : upcomingTemplates db org today p = (activeTemplates db org).filter fun r =>
      r.nextDueDate.toOrdinal ≤ p.endOrdinal ∧ today < r.nextDueDate := by
    rw [upcomingTemplates, activeTemplates, List.filter_filter]
    refine List.filter_congr fun r _ => ?_
    rw [← Bool.decide_and]
    exact decide_eq_decide.mpr (by tauto)
  rw [upcomingTotal, hupcoming, List.filter_filter]
  simp only [← Bool.decide_and]
  refine sum_filter_congr fun r hr => ?_
  by_cases hdue : r.nextDueDate.toOrdinal ≤ p.endOrdinal
  · simp [hdue, hlater r hr]
  · rw [(upcomingAmount_of_lt (Nat.lt_of_not_le hdue)).1]
    simp

/-- No template with an amount falls due before a period. -/
def NoneOverdue (db : Db) (org : ℕ) (p : BillingPeriod) : Prop :=
  ∀ r ∈ activeTemplates db org, 0 < r.amount → r.nextDueDate.toOrdinal ≤ p.endOrdinal →
    p.startDate ≤ r.nextDueDate

instance (db : Db) (org : ℕ) (p : BillingPeriod) : Decidable (NoneOverdue db org p) :=
  inferInstanceAs (Decidable (∀ r ∈ activeTemplates db org, _))

/-- A sum stays below a sum of greater parts, and reaches it only when every part does. -/
theorem sum_eq_iff_of_le {α : Type*} {l : List α} {f g : α → ℤ} (h : ∀ a ∈ l, f a ≤ g a) :
    (l.map g).sum = (l.map f).sum ↔ ∀ a ∈ l, g a = f a := by
  refine ⟨fun heq a ha => ?_, fun hall => congrArg List.sum (List.map_congr_left hall)⟩
  by_contra hne
  exact (List.sum_lt_sum f g h ⟨a, ha, (h a ha).lt_of_ne' hne⟩).ne' heq

/-- The forecast adds up the occurrences of both types exactly when no template is overdue. -/
theorem upcomingTotal_eq_occurrenceTotal_iff
    (hlater : ∀ r ∈ activeTemplates db org, today < r.nextDueDate)
    (hamount : ∀ r ∈ activeTemplates db org, 0 ≤ r.amount) :
    (∀ type, upcomingTotal db org today p type = occurrenceTotal db org p type) ↔
      NoneOverdue db org p := by
  have htype : ∀ type, upcomingTotal db org today p type = occurrenceTotal db org p type ↔
      ∀ r ∈ activeTemplates db org, r.type = type → upcomingAmount p r = occurrenceAmount p r := by
    intro type
    rw [upcomingTotal_eq hlater, occurrenceTotal,
      sum_eq_iff_of_le fun r hr => (occurrenceAmount_le (hamount r (List.mem_of_mem_filter hr))).1]
    simp only [List.mem_filter, decide_eq_true_eq, and_imp]
  simp only [htype]
  constructor
  · intro h r hr
    exact (occurrenceAmount_le (hamount r hr)).2.mp (h r.type r hr rfl)
  · rintro h type r hr -
    exact (occurrenceAmount_le (hamount r hr)).2.mpr (h r hr)

/-! ### Populating a plan -/

/-- The plan of a period is a draft without items, or still to be created. -/
def EmptyDraft (books : Books) (org : ℕ) (p : BillingPeriod) : Prop :=
  (getOrCreatePlanRow books org p.id).2.status ≠ .active ∧
    planItems books (getOrCreatePlanRow books org p.id).2.id = []

instance (books : Books) (org : ℕ) (p : BillingPeriod) : Decidable (EmptyDraft books org p) :=
  inferInstanceAs (Decidable (_ ∧ _))

/-- What the items of a plan that come from templates of a type add up to. -/
def plannedRecurring (books : Books) (planId : ℕ) (type : EntryType) : ℤ :=
  (((planItems books planId).filter fun i => i.source = .recurring ∧ i.type = type).map
    (·.plannedAmount)).sum

variable {average : ℤ → ℕ → ℤ} {books : Books}

theorem plannedRecurring_eq (planId : ℕ) :
    plannedRecurring books planId type =
      (((planLines books planId).filter fun l => l.2.2.2 = .recurring ∧ l.2.1 = type).map
        (·.2.2.1)).sum := by
  rw [planLines, List.filter_map, List.map_map]
  rfl

/-- The totals of a plan without items add up the occurrences. -/
theorem sum_recurringTotals (hamount : ∀ r ∈ activeTemplates books.toDb org, 0 ≤ r.amount) :
    (((recurringTotals books org p []).filter (·.1.2 = type)).map Prod.snd).sum =
      occurrenceTotal books.toDb org p type := by
  have hrows : (books.recurring.rows.filter fun r => r.orgId = org ∧ r.isActive = true ∧
      r.nextDueDate.toOrdinal ≤ p.endOrdinal ∧
        (catToMaster books org r.categoryId, r.type) ∉ ([] : List (ℕ × EntryType)) ∧
        0 < recurringTotal p r) =
      (activeTemplates books.toDb org).filter fun r =>
        r.nextDueDate.toOrdinal ≤ p.endOrdinal ∧ 0 < recurringTotal p r := by
    rw [activeTemplates, List.filter_filter]
    refine List.filter_congr fun r _ => ?_
    rw [← Bool.decide_and]
    exact decide_eq_decide.mpr (by simp only [List.not_mem_nil, not_false_eq_true]; tauto)
  rw [recurringTotals, hrows]
  refine (sum_tally _ fun k : ℕ × EntryType => k.2 = type).trans ?_
  rw [List.filter_map, List.map_map, List.filter_filter, occurrenceTotal]
  simp only [Function.comp_def, ← Bool.decide_and]
  refine sum_filter_congr fun r hr => ?_
  -- A template that is left out has no amount within the period.
  rw [recurringTotal_eq]
  by_cases hdue : r.nextDueDate.toOrdinal ≤ p.endOrdinal
  · by_cases hpos : 0 < occurrenceAmount p r
    · simp [hdue, hpos]
    · have hzero : occurrenceAmount p r = 0 := by
        refine le_antisymm (not_lt.mp hpos) (List.sum_nonneg fun a ha => ?_)
        obtain ⟨o, ho, rfl⟩ := List.mem_map.mp ha
        rw [amount_of_mem_due (List.mem_of_mem_filter ho)]
        exact hamount r hr
      simp [hzero]
  · rw [(upcomingAmount_of_lt (Nat.lt_of_not_le hdue)).2]
    simp

/-- The amounts that populating an empty plan of a period derives fit their column. -/
def SuggestionsFit (average : ℤ → ℕ → ℤ) (books : Books) (org : ℕ) (p : BillingPeriod) : Prop :=
  ∀ i ∈ suggestions average books org p (getOrCreatePlanRow books org p.id).2 [],
    InColumn i.plannedAmount

instance (average : ℤ → ℕ → ℤ) (books : Books) (org : ℕ) (p : BillingPeriod) :
    Decidable (SuggestionsFit average books org p) :=
  inferInstanceAs (Decidable (∀ i ∈ _, _))

theorem planItems_of_empty {base : Books} {plan : ForecastPlan}
    (hrow : getOrCreatePlanRow books org p.id = (base, plan)) (hempty : EmptyDraft books org p) :
    planItems base plan.id = [] := by
  have hitems := hempty.2
  rw [hrow] at hitems
  rw [← hitems, planItems, (getOrCreatePlanRow_got hrow).items]
  rfl

/-- The suggestions for an empty plan are added to the items there are. -/
theorem addSuggestions_of_empty {base : Books} {plan : ForecastPlan}
    (hrow : getOrCreatePlanRow books org p.id = (base, plan)) (hempty : EmptyDraft books org p) :
    addSuggestions average base org p plan =
      addItems base (suggestions average books org p plan []) := by
  have hsame :
      suggestions average base org p plan [] = suggestions average books org p plan [] := by
    unfold getOrCreatePlanRow at hrow
    split at hrow <;> obtain ⟨rfl, -⟩ := Prod.mk.inj hrow <;> rfl
  rw [addSuggestions, planItems_of_empty hrow hempty, List.map_nil, hsame]

/-- Populating an empty plan succeeds when the derived amounts fit their column. -/
theorem exists_populated_iff (hunique : books.UniqueItems) (hfit : books.AmountsFit)
    (hempty : EmptyDraft books org p) :
    (∃ after, populateFromSources average books org p = .ok after) ↔
      SuggestionsFit average books org p := by
  rcases hrow : getOrCreatePlanRow books org p.id with ⟨base, plan⟩
  have hgot := getOrCreatePlanRow_got hrow
  have hbase : base.AmountsFit := fun i hi => hfit i (hgot.items ▸ hi)
  have hadd : addSuggestions average base org p plan = _ := addSuggestions_of_empty hrow hempty
  have hdraft : plan.status ≠ .active := by
    have hstatus := hempty.1
    rwa [hrow] at hstatus
  have hfits : (addSuggestions average base org p plan).AmountsFit ↔
      SuggestionsFit average books org p := by
    rw [hadd, amountsFit_addItems, and_iff_right hbase, SuggestionsFit, hrow]
  constructor
  · rintro ⟨after, h⟩
    obtain ⟨_, _, heq, -, hafter, -⟩ := populateFromSources_eq_ok.mp h
    obtain ⟨rfl, rfl⟩ := Prod.mk.inj (hrow.symm.trans heq)
    exact hfits.mp hafter
  · intro h
    exact ⟨_, populateFromSources_eq_ok.mpr ⟨base, plan, hrow, hdraft, hfits.mpr h,
      addSuggestions_unique (hgot.unique_iff.mpr hunique), rfl⟩⟩

/-- What populating an empty plan leaves adds up the occurrences. -/
theorem populated_eq_occurrenceTotal (hempty : EmptyDraft books org p)
    (hamount : ∀ r ∈ activeTemplates books.toDb org, 0 ≤ r.amount) {after : Books}
    (h : populateFromSources average books org p = .ok after) :
    ∃ plan, planForPeriod? after org p.id = some plan ∧
      ∀ type, plannedRecurring after plan.id type = occurrenceTotal books.toDb org p type := by
  obtain ⟨base, plan, hrow, -, -, -, rfl⟩ := populateFromSources_eq_ok.mp h
  refine ⟨plan, planForPeriod?_of_got hrow rfl, fun type => ?_⟩
  rw [plannedRecurring_eq, addSuggestions_of_empty hrow hempty,
    planLines_addItems fun i hi => (of_mem_suggestions hi).1, planLines,
    planItems_of_empty hrow hempty, List.map_nil,
    List.nil_append, suggestions, List.map_append, List.filter_append, List.map_append,
    List.sum_append, ← sum_recurringTotals hamount]
  have hhistory : ∀ l : List ((ℕ × EntryType) × ℤ),
      ((l.map fun e => newItem plan org .history e.1 e.2).map ForecastPlanItem.line).filter
        (fun l => l.2.2.2 = .recurring ∧ l.2.1 = type) = [] := by
    intro l
    rw [List.map_map, List.filter_eq_nil_iff]
    intro i hi
    obtain ⟨e, -, rfl⟩ := List.mem_map.mp hi
    simp [ForecastPlanItem.line, newItem]
  rw [hhistory, List.map_nil, List.sum_nil, add_zero, List.map_map, List.filter_map, List.map_map]
  refine congrArg List.sum (congrArg _ (List.filter_congr fun e _ => ?_))
  exact decide_eq_decide.mpr (by simp [ForecastPlanItem.line, newItem])

/-- The stub after the sample month. -/
def sampleNextMonth : BillingPeriod :=
  { id := 2, orgId := 1
    startDate := .of 2024 2 1
    endDate := some (.of 2024 2 29) }

/-- Books with a monthly rent that falls due in the middle of the sample month. -/
def sampleRent : Books :=
  { sampleDraft with
    forecastPlanItems := .empty
    recurring := Table.empty.insert
      { orgId := 1, accountId := 1, categoryId := 1, description := "Rent", amount := 1000
        type := .expense, frequency := .monthly
        nextDueDate := .of 2024 1 15 } }

def sampleToday : Date := .of 2024 1 10

theorem sampleRent_later : ∀ r ∈ activeTemplates sampleRent.toDb 1,
    sampleToday < r.nextDueDate := by
  decide +kernel

end Pfv
