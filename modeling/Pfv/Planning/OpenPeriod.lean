import Pfv.Planning.Partition
import Pfv.Services.PeriodSessions

/-!
# One open period under concurrency

Requests on the billing periods of an organisation read, create, close and repair in any order. The
key of organisation and start catches two closes on one date and two first periods with one start.
It does not catch two closes of one period on different dates: each opens a period of its own. There
is one open period at most in every interleaving in which a commit that opens a period finds no
other open period than the one it closes and the one it revives.

## Main definitions

* `OneOpen`: an organisation has at most one open period.
* `PeriodPhase.FindsOpen`: the condition on a commit.

## Main results

* `PeriodPhase.advance_oneOpen`: what one step keeps.
* `closeCurrent_eq_advance`: a close that nothing runs besides is `closeCurrent`.
* `oneOpen_of_interleaving`: at most one open period after every interleaving of such steps.
* `not_oneOpen_of_sampleCloses`: two closes on different dates leave two open periods.
-/

namespace Pfv

/-! ### Open periods -/

/-- The ids of the open periods of an organisation. -/
def openIds (db : Planning) (org : ℕ) : Set ℕ :=
  {i | ∃ p, db.billingPeriods.get? i = some p ∧ p.orgId = org ∧ p.endDate = none}

/-- An organisation has at most one open period. -/
def OneOpen (db : Planning) (org : ℕ) : Prop :=
  ∀ p ∈ db.billingPeriods.rows, ∀ q ∈ db.billingPeriods.rows, p.orgId = org → q.orgId = org →
    p.endDate = none → q.endDate = none → p = q

instance (db : Planning) (org : ℕ) : Decidable (OneOpen db org) :=
  inferInstanceAs (Decidable (∀ p ∈ db.billingPeriods.rows, ∀ q ∈ db.billingPeriods.rows, _))

/-- No period of an organisation is open but those with the given ids. -/
def OpenAmong (db : Planning) (org : ℕ) (ids : List ℕ) : Prop :=
  ∀ p ∈ db.billingPeriods.rows, p.orgId = org → p.endDate = none → p.id ∈ ids

instance (db : Planning) (org : ℕ) (ids : List ℕ) : Decidable (OpenAmong db org ids) :=
  inferInstanceAs (Decidable (∀ p ∈ db.billingPeriods.rows, _))

/-- There is a period of an organisation with the id. -/
def HasPeriod (db : Planning) (org i : ℕ) : Prop :=
  ∃ p, db.billingPeriods.get? i = some p ∧ p.orgId = org

variable {db db' : Planning} {org : ℕ}

@[simp] theorem BillingPeriod.row_id (p : BillingPeriod) : Row.id p = p.id := rfl

theorem oneOpen_iff : OneOpen db org ↔ (openIds db org).Subsingleton := by
  constructor
  · rintro h i ⟨p, hp, hporg, hpopen⟩ j ⟨q, hq, hqorg, hqopen⟩
    rw [← Table.get?_id hp, ← Table.get?_id hq,
      h p (Table.get?_mem hp) q (Table.get?_mem hq) hporg hqorg hpopen hqopen]
  · intro h p hp q hq hporg hqorg hpopen hqopen
    have hpget := Table.get?_of_mem hp
    have hqget := Table.get?_of_mem hq
    exact Table.get?_inj hpget hqget (h ⟨p, hpget, hporg, hpopen⟩ ⟨q, hqget, hqorg, hqopen⟩)

theorem openAmong_iff {ids : List ℕ} : OpenAmong db org ids ↔ ∀ i ∈ openIds db org, i ∈ ids := by
  constructor
  · rintro h i ⟨p, hp, horg, hopen⟩
    exact Table.get?_id hp ▸ h p (Table.get?_mem hp) horg hopen
  · exact fun h p hp horg hopen => h p.id ⟨p, Table.get?_of_mem hp, horg, hopen⟩

theorem periodAt?_hasPeriod {start : Date} {p : BillingPeriod}
    (h : periodAt? db org start = some p) :
    HasPeriod db org p.id := by
  obtain ⟨⟨hp, horg⟩, -⟩ := Planning.periodAt?_eq_some h
  exact ⟨p, Table.get?_of_mem hp, horg⟩

/-! ### The writes -/

theorem get?_setEnd (db : Planning) (p : BillingPeriod) (endDate : Option Date) (i : ℕ) :
    (setEnd db p endDate).billingPeriods.get? i = (db.billingPeriods.get? i).map fun q =>
      if i = p.id ∧ p.endDate ≠ endDate then { q with endDate := endDate } else q := by
  unfold setEnd
  by_cases hsame : p.endDate = endDate
  · rw [if_pos hsame]
    simp only [hsame, ne_eq, not_true_eq_false, and_false, if_false, Option.map_id']
  · rw [if_neg hsame]
    refine (Table.get?_modify db.billingPeriods p.id (fun q => { q with endDate := endDate })
      (fun _ => rfl) i).trans ?_
    by_cases hi : i = p.id
    · simp only [hi, hsame, ne_eq, not_false_eq_true, and_self, if_true]
    · simp only [hi, false_and, if_false, Option.map_id']

theorem get?_addPeriod (db : Planning) (p : BillingPeriod) (i : ℕ) :
    (addPeriod db p).billingPeriods.get? i =
      if i = db.billingPeriods.next then some { p with id := db.billingPeriods.next }
      else db.billingPeriods.get? i :=
  Table.get?_insert _ _ _

/-- Ending a period takes it off the open ones. -/
theorem openIds_setEnd_some (p : BillingPeriod) (c : Date) :
    openIds (setEnd db p (some c)) org ⊆ {i ∈ openIds db org | p.endDate = some c ∨ i ≠ p.id} := by
  rintro i ⟨q', hq', horg, hopen⟩
  rw [get?_setEnd, Option.map_eq_some_iff] at hq'
  obtain ⟨q, hq, rfl⟩ := hq'
  by_cases hwritten : i = p.id ∧ p.endDate ≠ some c
  · rw [if_pos hwritten] at hopen
    exact absurd hopen (Option.some_ne_none c)
  · rw [if_neg hwritten] at horg hopen
    refine ⟨⟨q, hq, horg, hopen⟩, ?_⟩
    by_contra hnot
    rw [not_or, not_not] at hnot
    exact hwritten ⟨hnot.2, hnot.1⟩

/-- Reviving a period of an organisation opens it, unless it was loaded open, and opens no other. -/
theorem openIds_setEnd_none {o : ℕ} {p : BillingPeriod} (hp : HasPeriod db o p.id) :
    openIds (setEnd db p none) org ⊆
      {i | i ∈ openIds db org ∨ org = o ∧ p.endDate ≠ none ∧ i = p.id} := by
  rintro i ⟨q', hq', horg, hopen⟩
  rw [get?_setEnd, Option.map_eq_some_iff] at hq'
  obtain ⟨q, hq, rfl⟩ := hq'
  by_cases hwritten : i = p.id ∧ p.endDate ≠ none
  · rw [if_pos hwritten] at horg
    obtain ⟨r, hr, hrorg⟩ := hp
    rw [← hwritten.1, hq, Option.some_inj] at hr
    exact .inr ⟨horg.symm.trans (hr ▸ hrorg), hwritten.2, hwritten.1⟩
  · rw [if_neg hwritten] at horg hopen
    exact .inl ⟨q, hq, horg, hopen⟩

/-- Storing a period opens it when it is open, for its own organisation. -/
theorem openIds_addPeriod (p : BillingPeriod) : openIds (addPeriod db p) org ⊆
    {i | i ∈ openIds db org ∨ org = p.orgId ∧ p.endDate = none ∧ i = db.billingPeriods.next} := by
  rintro i ⟨q, hq, horg, hopen⟩
  rw [get?_addPeriod] at hq
  split_ifs at hq with hi
  · obtain rfl := Option.some_inj.mp hq
    exact .inr ⟨horg.symm, hopen, hi⟩
  · exact .inl ⟨q, hq, horg, hopen⟩

theorem HasPeriod.setEnd {i : ℕ} (h : HasPeriod db org i) (p : BillingPeriod)
    (endDate : Option Date) : HasPeriod (setEnd db p endDate) org i := by
  obtain ⟨q, hq, horg⟩ := h
  rw [HasPeriod, get?_setEnd, hq]
  refine ⟨_, rfl, ?_⟩
  split_ifs <;> exact horg

theorem HasPeriod.addPeriod {i : ℕ} (h : HasPeriod db org i) (p : BillingPeriod) :
    HasPeriod (addPeriod db p) org i := by
  obtain ⟨q, hq, horg⟩ := h
  exact ⟨q, Table.get?_insert_of_some p hq, horg⟩

theorem HasPeriod.storeStubs {o i : ℕ} (h : HasPeriod db org i) (created : List BillingPeriod) :
    HasPeriod (storeStubs db o created) org i := by
  have hfold : ∀ (l : List BillingPeriod) (d : Planning), HasPeriod d org i →
      HasPeriod (l.foldl Pfv.addPeriod d) org i := by
    intro l
    induction l with
    | nil => exact fun d hd => hd
    | cons p l ih => exact fun d hd => ih _ (hd.addPeriod p)
  unfold Pfv.storeStubs
  split_ifs
  · exact h
  · exact hfold created db h

theorem recloseCurrent_some (db : Planning) (c : Date) (p : BillingPeriod) :
    recloseCurrent db c (some p) = if p.endDate = none then setEnd db p (some c) else db := rfl

theorem HasPeriod.recloseCurrent {i : ℕ} (h : HasPeriod db org i) (c : Date)
    (current : Option BillingPeriod) : HasPeriod (recloseCurrent db c current) org i := by
  cases current with
  | none => exact h
  | some p =>
    rw [recloseCurrent_some]
    split_ifs
    · exact h.setEnd p _
    · exact h

/-- Stubs have an end, so storing them opens nothing. -/
theorem openIds_storeStubs {o : ℕ} {created : List BillingPeriod}
    (h : ∀ p ∈ created, p.endDate ≠ none) :
    openIds (storeStubs db o created) org ⊆ openIds db org := by
  have hfold : ∀ (l : List BillingPeriod) (d : Planning), (∀ p ∈ l, p.endDate ≠ none) →
      openIds (l.foldl addPeriod d) org ⊆ openIds d org := by
    intro l
    induction l with
    | nil => exact fun d _ => subset_rfl
    | cons p l ih =>
      intro d hl i hi
      rcases openIds_addPeriod p (ih _ (fun q hq => hl q (List.mem_cons_of_mem p hq)) hi) with
        hold | ⟨-, hopen, -⟩
      · exact hold
      · exact absurd hopen (hl p List.mem_cons_self)
  unfold storeStubs
  split_ifs
  · exact subset_rfl
  · exact hfold created db h

/-- The ids of the periods that the repair of a close ends. -/
def reclosed (current : Option BillingPeriod) : List ℕ :=
  ((current.filter fun p => p.endDate = none).map (·.id)).toList

theorem openIds_recloseCurrent (c : Date) (current : Option BillingPeriod) :
    openIds (recloseCurrent db c current) org ⊆ {i ∈ openIds db org | i ∉ reclosed current} := by
  cases current with
  | none => exact fun i hi => ⟨hi, List.not_mem_nil⟩
  | some p =>
    intro i hi
    rw [recloseCurrent_some] at hi
    by_cases hopen : p.endDate = none
    · rw [if_pos hopen] at hi
      obtain ⟨hold, hcase⟩ := openIds_setEnd_some p c hi
      refine ⟨hold, ?_⟩
      simp only [reclosed, Option.filter_some, hopen, decide_true, if_true, Option.map_some,
        Option.toList_some, List.mem_singleton]
      exact hcase.resolve_left (by rw [hopen]; exact (Option.some_ne_none c).symm)
    · rw [if_neg hopen] at hi
      refine ⟨hi, ?_⟩
      simp only [reclosed, Option.filter_some, hopen, decide_false, Bool.false_eq_true, if_false,
        Option.map_none, Option.toList_none, List.not_mem_nil, not_false_eq_true]

/-! ### One step -/

/-- The ids of the periods that a close ends. -/
def CloseTask.closes (t : CloseTask) : List ℕ :=
  if t.current.endDate = some t.closeDate then [] else [t.current.id]

/-- A commit that opens a period of an organisation, by an insert whose start is free or by reviving
a closed one, finds no other open period than the one it ends and the one it revives. -/
def PeriodPhase.FindsOpen (org : ℕ) (db : Planning) : PeriodPhase → Prop
  | .creating r start => r.org = org → periodAt? db org start = none → OpenAmong db org []
  | .closing t none =>
      t.org = org → periodAt? db org t.closeDate.nextDay = none → OpenAmong db org t.closes
  | .closing t (some existing) =>
      t.org = org → existing.endDate ≠ none → OpenAmong db org (existing.id :: t.closes)
  | .reclosing t current new =>
      t.org = org → new.endDate ≠ none → OpenAmong db org (new.id :: reclosed current)
  | _ => True

instance (org : ℕ) (db : Planning) : ∀ p : PeriodPhase, Decidable (p.FindsOpen org db)
  | .creating r _ => inferInstanceAs (Decidable (r.org = org → _ → _))
  | .closing t none => inferInstanceAs (Decidable (t.org = org → _ → _))
  | .closing t (some _) => inferInstanceAs (Decidable (t.org = org → _ → _))
  | .reclosing t _ _ => inferInstanceAs (Decidable (t.org = org → _ → _))
  | .reading _ | .rereading _ _ | .refreshing _ _ | .looking _ | .repairing _ | .reviving _ _
  | .stubbing _ _ _ _ | .storing _ _ => .isTrue trivial

/-- What a request carries: the period that it is going to revive is of its organisation, and its
stubs have an end. -/
def PeriodPhase.Carries (db : Planning) : PeriodPhase → Prop
  | .closing t (some existing) => HasPeriod db t.org existing.id
  | .reclosing t _ new => HasPeriod db t.org new.id
  | .stubbing _ _ _ created => ∀ p ∈ created, p.endDate ≠ none
  | .storing _ created => ∀ p ∈ created, p.endDate ≠ none
  | _ => True

/-- Every step keeps the periods with their organisations. -/
theorem PeriodPhase.advance_hasPeriod {o i : ℕ} (p : PeriodPhase) (h : HasPeriod db o i) :
    HasPeriod (p.advance db).1 o i := by
  cases p with
  | reading r =>
    simp only [advance]
    split
    · exact h
    · split <;> exact h
  | creating r start =>
    simp only [advance]
    split_ifs
    · exact h
    · exact h.addPeriod _
  | closing t existing =>
    cases existing with
    | none =>
      simp only [advance]
      split_ifs
      · exact h
      · exact (h.setEnd _ _).addPeriod _
    | some e => exact (h.setEnd _ _).setEnd _ _
  | reclosing t current new => exact (h.recloseCurrent _ _).setEnd _ _
  | stubbing org base months created => cases months <;> exact h
  | storing org created => exact h.storeStubs created
  | rereading | refreshing | looking | repairing | reviving => exact h

theorem PeriodPhase.Carries.advance {q : PeriodPhase} (p : PeriodPhase) (h : q.Carries db) :
    q.Carries (p.advance db).1 := by
  cases q with
  | closing t existing =>
    cases existing with
    | none => trivial
    | some e => exact p.advance_hasPeriod h
  | reclosing t current new => exact p.advance_hasPeriod h
  | stubbing | storing => exact h
  | reading | creating | rereading | refreshing | looking | repairing | reviving => trivial

theorem afterCurrent_carries {r : PeriodTask} {current : BillingPeriod} {p : PeriodPhase}
    (h : r.afterCurrent current = some p) : p.Carries db := by
  unfold PeriodTask.afterCurrent at h
  cases hcall : r.call with
  | getCurrentPeriod =>
    rw [hcall] at h
    cases h
  | ensureFuturePeriods count =>
    rw [hcall] at h
    cases h
    exact fun q hq => absurd hq List.not_mem_nil
  | closePeriod closeDate =>
    simp only [hcall] at h
    split_ifs at h
    cases h
    trivial

theorem readStub_endDate {start : Date} {created : List BillingPeriod}
    (h : ∀ p ∈ created, p.endDate ≠ none) :
    ∀ p ∈ readStub db org start created, p.endDate ≠ none := by
  unfold readStub
  split
  · exact h
  · intro p hp
    rcases List.mem_append.mp hp with hp | hp
    · exact h p hp
    · rw [List.mem_singleton.mp hp]
      exact Option.some_ne_none _

/-- What a step passes on. -/
theorem PeriodPhase.advance_carries {p p' : PeriodPhase} (h : p.Carries db)
    (hp' : p' ∈ (p.advance db).2) : p'.Carries (p.advance db).1 := by
  cases p with
  | reading r =>
    simp only [PeriodPhase.advance] at hp' ⊢
    split at hp'
    · exact afterCurrent_carries hp'
    · split at hp'
      · cases hp'
        trivial
      · cases hp'
  | creating r start =>
    simp only [PeriodPhase.advance] at hp' ⊢
    split_ifs at hp' <;> cases hp' <;> trivial
  | rereading r start =>
    obtain ⟨q, -, rfl⟩ := Option.map_eq_some_iff.mp hp'
    trivial
  | refreshing r id =>
    obtain ⟨q, -, hq⟩ := Option.bind_eq_some_iff.mp hp'
    exact afterCurrent_carries hq
  | looking t =>
    cases hp'
    show PeriodPhase.Carries db (.closing t (periodAt? db t.org t.closeDate.nextDay))
    cases hfound : periodAt? db t.org t.closeDate.nextDay with
    | none => trivial
    | some e => exact periodAt?_hasPeriod hfound
  | closing t existing =>
    cases existing with
    | none =>
      simp only [PeriodPhase.advance] at hp' ⊢
      split_ifs at hp' <;> cases hp'
      trivial
    | some e => cases hp'
  | repairing t =>
    cases hp'
    trivial
  | reviving t current =>
    obtain ⟨q, hq, rfl⟩ := Option.map_eq_some_iff.mp hp'
    exact periodAt?_hasPeriod hq
  | reclosing t current new => cases hp'
  | stubbing org base months created =>
    cases months with
    | nil =>
      cases hp'
      exact h
    | cons i months =>
      cases hp'
      exact readStub_endDate h
  | storing org created => cases hp'

/-- A commit that ends some of the open periods and opens one leaves one at most, when it finds no
other open. -/
theorem subsingleton_of_opens {A B : Set ℕ} (closes : List ℕ) (own : Prop) (x : ℕ)
    (hA : A.Subsingleton) (hB : ∀ i ∈ B, i ∈ A ∧ i ∉ closes ∨ own ∧ i = x)
    (hfinds : own → ∀ i ∈ A, i ∈ x :: closes) : B.Subsingleton := by
  by_cases hown : own
  · have hx : ∀ i ∈ B, i = x := by
      intro i hi
      rcases hB i hi with ⟨hiA, hclosed⟩ | ⟨-, rfl⟩
      · exact (List.mem_cons.mp (hfinds hown i hiA)).resolve_right hclosed
      · rfl
    exact fun i hi j hj => (hx i hi).trans (hx j hj).symm
  · exact hA.anti fun i hi => ((hB i hi).resolve_right fun h => hown h.1).1

theorem CloseTask.openIds_setEnd (t : CloseTask) :
    openIds (setEnd db t.current (some t.closeDate)) org ⊆
      {i ∈ openIds db org | i ∉ t.closes} := by
  intro i hi
  obtain ⟨hold, hcase⟩ := openIds_setEnd_some t.current t.closeDate hi
  refine ⟨hold, ?_⟩
  unfold CloseTask.closes
  split_ifs with hsame
  · exact List.not_mem_nil
  · exact fun hmem => (hcase.resolve_left hsame) (List.mem_singleton.mp hmem)

/-- A step that satisfies the condition leaves at most one open period. -/
theorem PeriodPhase.advance_oneOpen {p : PeriodPhase} (h : OneOpen db org) (hp : p.Carries db)
    (hfinds : p.FindsOpen org db) : OneOpen (p.advance db).1 org := by
  rw [oneOpen_iff] at h
  cases p with
  | reading r =>
    simp only [advance]
    split
    · exact oneOpen_iff.mpr h
    · split <;> exact oneOpen_iff.mpr h
  | creating r start =>
    simp only [advance]
    split_ifs with htaken
    · exact oneOpen_iff.mpr h
    · refine oneOpen_iff.mpr (subsingleton_of_opens [] (org = r.org) db.billingPeriods.next h
        (fun i hi => ?_) fun horg i hi => ?_)
      · rcases openIds_addPeriod _ hi with hold | ⟨horg, -, hnew⟩
        · exact .inl ⟨hold, List.not_mem_nil⟩
        · exact .inr ⟨horg, hnew⟩
      · subst horg
        have hfree := Option.not_isSome_iff_eq_none.mp htaken
        exact absurd (openAmong_iff.mp (hfinds rfl hfree) i hi) List.not_mem_nil
  | closing t existing =>
    cases existing with
    | none =>
      simp only [advance]
      split_ifs with htaken
      · exact oneOpen_iff.mpr h
      · refine oneOpen_iff.mpr (subsingleton_of_opens t.closes (org = t.org)
          (setEnd db t.current (some t.closeDate)).billingPeriods.next h (fun i hi => ?_)
          fun horg i hi => ?_)
        · rcases openIds_addPeriod _ hi with hold | ⟨horg, -, hnew⟩
          · exact .inl (t.openIds_setEnd hold)
          · exact .inr ⟨horg, hnew⟩
        · subst horg
          have hfree := Option.not_isSome_iff_eq_none.mp htaken
          exact List.mem_cons_of_mem _ (openAmong_iff.mp (hfinds rfl hfree) i hi)
    | some e =>
      have he : HasPeriod (setEnd db t.current (some t.closeDate)) t.org e.id :=
        HasPeriod.setEnd hp _ _
      refine oneOpen_iff.mpr (subsingleton_of_opens t.closes (org = t.org ∧ e.endDate ≠ none) e.id h
        (fun i hi => ?_) fun ⟨horg, hrevived⟩ i hi => ?_)
      · rcases openIds_setEnd_none he hi with hold | ⟨horg, hrevived, hnew⟩
        · exact .inl (t.openIds_setEnd hold)
        · exact .inr ⟨⟨horg, hrevived⟩, hnew⟩
      · exact openAmong_iff.mp (hfinds horg.symm hrevived) i hi
  | reclosing t current new =>
    have hnew : HasPeriod (recloseCurrent db t.closeDate current) t.org new.id :=
      HasPeriod.recloseCurrent hp _ _
    refine oneOpen_iff.mpr
      (subsingleton_of_opens (reclosed current) (org = t.org ∧ new.endDate ≠ none)
      new.id h (fun i hi => ?_) fun ⟨horg, hrevived⟩ i hi => ?_)
    · rcases openIds_setEnd_none hnew hi with hold | ⟨horg, hrevived, hnew⟩
      · exact .inl (openIds_recloseCurrent _ _ hold)
      · exact .inr ⟨⟨horg, hrevived⟩, hnew⟩
    · exact openAmong_iff.mp (hfinds horg.symm hrevived) i hi
  | stubbing o base months created => cases months <;> exact oneOpen_iff.mpr h
  | storing o created => exact oneOpen_iff.mpr (h.anti (openIds_storeStubs hp))
  | rereading | refreshing | looking | repairing | reviving => exact oneOpen_iff.mpr h

/-! ### A close that nothing runs besides -/

/-- Writing the end of a stored period is writing the period back with that end. -/
theorem setEnd_eq_putPeriod {p : BillingPeriod} (h : db.billingPeriods.get? p.id = some p)
    (endDate : Option Date) : setEnd db p endDate = putPeriod db { p with endDate := endDate } := by
  have hsame : ∀ q ∈ db.billingPeriods.rows, q.id = p.id → q = p := fun q hq hid =>
    Table.get?_inj (Table.get?_of_mem hq) h hid
  unfold setEnd
  split_ifs with hend
  · have hput : db.billingPeriods.put { p with endDate := endDate } = db.billingPeriods := by
      refine Table.ext ((List.map_congr_left fun q hq => ?_).trans (List.map_id _)) rfl
      split_ifs with hid
      · rw [hsame q hq hid, ← hend]
        rfl
      · rfl
    rw [putPeriod, hput]
  · rw [putPeriod]
    congr 1
    refine Table.ext (List.map_congr_left fun q hq => ?_) rfl
    by_cases hid : q.id = p.id
    · have hq := hsame q hq hid
      subst hq
      simp
    · simp [hid]

/-- Closing a period leaves the one that starts on another day as it was. -/
theorem periodAt?_putPeriod {p : BillingPeriod} {start : Date} (endDate : Option Date)
    (h : db.billingPeriods.get? p.id = some p) (hne : p.startDate ≠ start) :
    periodAt? (putPeriod db { p with endDate := endDate }) org start = periodAt? db org start := by
  have hfind : ∀ l : List BillingPeriod, (∀ q ∈ l, q.id = p.id → q = p) →
      (l.map fun q => if Row.id q = Row.id { p with endDate := endDate } then
        { p with endDate := endDate } else q).find? (fun q => q.orgId = org ∧ q.startDate = start) =
        l.find? fun q => q.orgId = org ∧ q.startDate = start := by
    intro l hl
    induction l with
    | nil => rfl
    | cons q l ih =>
      have ih := ih fun x hx => hl x (List.mem_cons_of_mem q hx)
      rw [List.map_cons, List.find?_cons, List.find?_cons, ih]
      by_cases hid : q.id = p.id
      · obtain rfl := hl q List.mem_cons_self hid
        simp [hne]
      · simp [hid]
  exact hfind _ fun q hq hid => Table.get?_inj (Table.get?_of_mem hq) h hid

/-- The read at the new start and the commit of a close are what `closeCurrent` does, when nothing
runs between them. -/
theorem closeCurrent_eq_advance {t : CloseTask} {opened : BillingPeriod}
    (h : db.billingPeriods.get? t.current.id = some t.current)
    (hclose : closeCurrent t.org t.closeDate db t.current = .ok (db', opened)) :
    ((PeriodPhase.closing t (periodAt? db t.org t.closeDate.nextDay)).advance db).1 = db' := by
  unfold closeCurrent at hclose
  rw [raiseIf_bind_eq_ok] at hclose
  obtain ⟨hdate, hclose⟩ := hclose
  have hne : t.current.startDate ≠ t.closeDate.nextDay := by
    intro heq
    have hord := congrArg Date.toOrdinal heq
    rw [Date.toOrdinal_nextDay] at hord
    rw [Date.lt_iff] at hdate
    omega
  have hend := setEnd_eq_putPeriod h (some t.closeDate)
  dsimp only at hclose
  rw [periodAt?_putPeriod _ h hne, ← hend] at hclose
  cases hfound : periodAt? db t.org t.closeDate.nextDay with
  | none =>
    simp only [hfound, pure_eq_ok, Prod.mk.injEq] at hclose
    obtain ⟨rfl, -⟩ := hclose
    simp only [PeriodPhase.advance, hfound, Option.isSome_none, Bool.false_eq_true, if_false]
  | some existing =>
    simp only [hfound, pure_eq_ok, Prod.mk.injEq] at hclose
    obtain ⟨rfl, -⟩ := hclose
    obtain ⟨⟨hmem, -⟩, hstart⟩ := Planning.periodAt?_eq_some hfound
    have hid : existing.id ≠ t.current.id := by
      intro hid
      rw [Table.get?_inj (Table.get?_of_mem hmem) h hid] at hstart
      exact hne hstart
    have hget : db.billingPeriods.get? existing.id = some existing := Table.get?_of_mem hmem
    refine setEnd_eq_putPeriod ?_ none
    rw [get?_setEnd, hget, Option.map_some, if_neg (fun hwritten => hid hwritten.1)]

/-! ### Every interleaving -/

/-- An organisation with at most one open period has at most one after every interleaving in which
the commits that open a period find no other open period than those they end or revive. -/
theorem oneOpen_of_interleaving (h : OneOpen db org) (ts : List (Turn PeriodTask))
    (hts : periodSessions.Respects (PeriodPhase.FindsOpen org) ⟨db, []⟩ ts) :
    OneOpen (periodSessions.interleave ⟨db, []⟩ ts).shared org := by
  refine (Sessions.interleave_local (I := fun db => OneOpen db org) (J := PeriodPhase.Carries)
    (fun _ _ _ => ?_) (fun db p hdb hp hok => ?_) ts h (fun p hp => ?_) hts).1
  · trivial
  · exact ⟨p.advance_oneOpen hdb hp hok, fun p' hp' => p.advance_carries hp hp',
      fun q hq => hq.advance p⟩
  · exact absurd hp List.not_mem_nil

/-- An organisation whose first period is open since January 1. -/
def sampleOpened : Planning :=
  addPeriod samplePlanning { orgId := 1, startDate := sampleDay 1 1 }

/-- A close on a day of January, asked for on February 1. -/
def sampleClose (day : ℕ) : PeriodTask where
  org := 1
  today := sampleDay 2 1
  call := .closePeriod (some (sampleDay 1 day))

/-- Two requests that take turns, one step each. -/
def sampleRace (a b : PeriodTask) (n : ℕ) : List (Turn PeriodTask) :=
  .start a :: .start b :: List.replicate n (.advance 0)

/-- Two closes on January 14: the second one finds the start taken and repairs. -/
theorem oneOpen_of_sampleRace :
    OneOpen (periodSessions.interleave ⟨sampleOpened, []⟩
      (sampleRace (sampleClose 14) (sampleClose 14) 9)).shared 1 :=
  oneOpen_of_interleaving (by decide +kernel) _ (by decide +kernel)

/-- Closes on January 14 and January 20 that have both read the period before either commits. -/
def sampleCloses : List (Turn PeriodTask) :=
  [.start (sampleClose 14), .start (sampleClose 20), .advance 0, .advance 0,
    .advance 0, .advance 1, .advance 0, .advance 0]

/-- Each of the two closes opens a period. -/
theorem not_oneOpen_of_sampleCloses : OneOpen sampleOpened 1 ∧
    ¬OneOpen (periodSessions.interleave ⟨sampleOpened, []⟩ sampleCloses).shared 1 :=
  ⟨by decide +kernel, by decide +kernel⟩

end Pfv
