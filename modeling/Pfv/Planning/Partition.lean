import Pfv.Base.Run
import Pfv.Base.Timeline
import Pfv.Services.Periods

/-!
# Billing periods partition time

The periods of an organisation as spans of time. Reading the open period, adding stubs, closing the
open period and changing the billing cycle keep them apart exactly when the close date lies before
every later period, the new start of the cycle in no other period, and no stub meets a later period.

## Main definitions

* `Calendar`: periods that are a timeline, with one start each and an open one among them.
* `Planning.Covers`, `Planning.Partitions`: no date lies in two periods of an organisation.
* `PeriodRequest`, `PeriodRequest.Fits`: the requests, and when they keep the periods apart.

## Main results

* `PeriodRequest.serve_calendar`: what one request keeps.
* `periods_partition_time`: what a run of requests keeps.
-/

namespace Pfv

/-! ### Calendars -/

/-- The days of a period. -/
def BillingPeriod.span (p : BillingPeriod) : Span :=
  ⟨p.startDate.toOrdinal, p.endDate.map Date.toOrdinal⟩

/-- Periods that share no day: each has its own start, and one of them is open. -/
structure Calendar (P : Set BillingPeriod) : Prop where
  timeline : Timeline (BillingPeriod.span '' P)
  unique : Set.InjOn BillingPeriod.startDate P
  live : P.Nonempty → ∃ p ∈ P, p.endDate = none

namespace Calendar

variable {P : Set BillingPeriod} {p q cur : BillingPeriod} {c n s e : Date}

theorem empty : Calendar ∅ :=
  ⟨by rw [Set.image_empty]; exact Timeline.empty, Set.injOn_empty _,
    fun h => absurd h Set.not_nonempty_empty⟩

/-- The first period alone. -/
theorem singleton (hopen : p.endDate = none) : Calendar {p} := by
  refine ⟨?_, Set.injOn_singleton _ _, fun _ => ⟨p, rfl, hopen⟩⟩
  rw [Set.image_singleton, BillingPeriod.span, hopen]
  exact Timeline.singleton _

theorem span_inj (h : Calendar P) (hp : p ∈ P) (hq : q ∈ P) (heq : p.span = q.span) : p = q :=
  h.unique hp hq (Date.toOrdinal_injective (congrArg Span.start heq))

theorem mem_span (hp : p ∈ P) : p.span ∈ BillingPeriod.span '' P := Set.mem_image_of_mem _ hp

theorem span_stop (hopen : p.endDate = none) : p.span.stop = none := by
  rw [BillingPeriod.span, hopen]
  rfl

/-- The open period is the only one. -/
theorem opened (h : Calendar P) (hp : p ∈ P) (hq : q ∈ P) (hpo : p.endDate = none)
    (hqo : q.endDate = none) : p = q :=
  h.span_inj hp hq
    (h.timeline.opened _ (mem_span hp) _ (mem_span hq) (span_stop hpo) (span_stop hqo))

/-- The periods after the open one is closed on a day: it ends there, and the period that starts the
day after is open. -/
def closeAt (P : Set BillingPeriod) (cur closed opened : BillingPeriod) : Set BillingPeriod :=
  {p | p = closed ∨ p = opened ∨ (p ∈ P ∧ p ≠ cur ∧ p.startDate ≠ opened.startDate)}

/-- Closing the open period keeps a calendar when the day lies before every later period. -/
theorem closed (h : Calendar P) {closed opened : BillingPeriod} (hcur : cur ∈ P)
    (hopen : cur.endDate = none) (hclosed : closed = { cur with endDate := some c })
    (hstart : opened.startDate = c.nextDay) (hnone : opened.endDate = none)
    (hc : cur.startDate ≤ c) (hlater : ∀ p ∈ P, cur.startDate < p.startDate → c < p.startDate) :
    Calendar (closeAt P cur closed opened) := by
  have hspans : BillingPeriod.span '' closeAt P cur closed opened =
      Span.closeAt (BillingPeriod.span '' P) cur.span c.toOrdinal := by
    have hc₁ : closed.span = ⟨cur.span.start, some c.toOrdinal⟩ := by
      rw [hclosed]
      rfl
    have ho₁ : opened.span = ⟨c.toOrdinal + 1, none⟩ := by
      rw [BillingPeriod.span, hstart, hnone, Date.toOrdinal_nextDay]
      rfl
    ext x
    constructor
    · rintro ⟨p, rfl | rfl | ⟨hp, hne, hpstart⟩, rfl⟩
      · exact .inl hc₁
      · exact .inr (.inl ho₁)
      · refine .inr (.inr ⟨mem_span hp, fun heq => hne (h.span_inj hp hcur heq), fun heq => ?_⟩)
        refine hpstart (Date.toOrdinal_injective ?_)
        rw [hstart, Date.toOrdinal_nextDay]
        exact heq
    · rintro (rfl | rfl | ⟨⟨p, hp, rfl⟩, hne, hpstart⟩)
      · exact ⟨closed, .inl rfl, hc₁⟩
      · exact ⟨opened, .inr (.inl rfl), ho₁⟩
      · refine ⟨p, .inr (.inr ⟨hp, fun heq => hne (heq ▸ rfl), fun heq => hpstart ?_⟩), rfl⟩
        rw [BillingPeriod.span, heq, hstart, Date.toOrdinal_nextDay]
  refine ⟨?_, ?_, fun _ => ⟨opened, .inr (.inl rfl), hnone⟩⟩
  · rw [hspans, timeline_closeAt_iff h.timeline (mem_span hcur) (span_stop hopen) hc]
    rintro _ ⟨p, hp, rfl⟩ hlt
    exact hlater p hp hlt
  · have hnext : ¬closed.startDate = opened.startDate := by
      rw [hclosed, hstart]
      intro heq
      have hord : cur.startDate.toOrdinal = c.nextDay.toOrdinal := congrArg Date.toOrdinal heq
      rw [Date.le_iff] at hc
      rw [Date.toOrdinal_nextDay] at hord
      omega
    have hcurStart : ∀ q ∈ P, q ≠ cur → ¬closed.startDate = q.startDate := fun q hq hne heq =>
      hne (h.unique hq hcur (by rw [← heq, hclosed]))
    rintro p (rfl | rfl | ⟨hp, hne, hpstart⟩) q (rfl | rfl | ⟨hq, hne', hqstart⟩) heq
    · rfl
    · exact absurd heq hnext
    · exact absurd heq (hcurStart q hq hne')
    · exact absurd heq.symm hnext
    · rfl
    · exact absurd heq.symm hqstart
    · exact absurd heq.symm (hcurStart p hp hne)
    · exact absurd heq hpstart
    · exact h.unique hp hq heq

/-- The periods after the start of the open one is moved. -/
def moveOpen (P : Set BillingPeriod) (cur moved : BillingPeriod) : Set BillingPeriod :=
  {p | p = moved ∨ (p ∈ P ∧ p ≠ cur)}

/-- Moving the start of the open period keeps a calendar when no other period covers it. -/
theorem moved (h : Calendar P) {moved : BillingPeriod} (hcur : cur ∈ P)
    (hopen : cur.endDate = none) (hmoved : moved = { cur with startDate := n })
    (hfree : ∀ p ∈ P, p ≠ cur → ∀ e, p.endDate = some e → ¬(p.startDate ≤ n ∧ n ≤ e)) :
    Calendar (moveOpen P cur moved) := by
  have hspan : moved.span = ⟨n.toOrdinal, none⟩ := by
    rw [hmoved, BillingPeriod.span, hopen]
    rfl
  have hspans : BillingPeriod.span '' moveOpen P cur moved =
      Span.moveOpen (BillingPeriod.span '' P) cur.span n.toOrdinal := by
    ext x
    constructor
    · rintro ⟨p, rfl | ⟨hp, hne⟩, rfl⟩
      · exact .inl hspan
      · exact .inr ⟨mem_span hp, fun heq => hne (h.span_inj hp hcur heq)⟩
    · rintro (rfl | ⟨⟨p, hp, rfl⟩, hne⟩)
      · exact ⟨moved, .inl rfl, hspan⟩
      · exact ⟨p, .inr ⟨hp, fun heq => hne (heq ▸ rfl)⟩, rfl⟩
  have htimeline : Timeline (BillingPeriod.span '' moveOpen P cur moved) := by
    rw [hspans, timeline_moveOpen_iff h.timeline (mem_span hcur) (span_stop hopen)]
    rintro _ ⟨p, hp, rfl⟩ hne e he
    obtain ⟨d, hd, rfl⟩ := Option.map_eq_some_iff.mp he
    exact hfree p hp (fun heq => hne (heq ▸ rfl)) d hd
  refine ⟨htimeline, ?_, fun _ => ⟨moved, .inl rfl, by rw [hmoved, hopen]⟩⟩
  have hother : ∀ q ∈ P, q ≠ cur → ¬moved.startDate = q.startDate := by
    intro q hq hne heq
    have hsame := htimeline.start_inj (mem_span (p := moved) (.inl rfl))
      (mem_span (p := q) (.inr ⟨hq, hne⟩)) (congrArg Date.toOrdinal heq)
    refine hne (h.opened hq hcur ?_ hopen)
    have hstop := congrArg Span.stop (hspan.symm.trans hsame)
    exact Option.map_eq_none_iff.mp hstop.symm
  rintro p (rfl | ⟨hp, hne⟩) q (rfl | ⟨hq, hne'⟩) heq
  · rfl
  · exact absurd heq (hother q hq hne')
  · exact absurd heq.symm (hother p hp hne)
  · exact h.unique hp hq heq

/-- A stub after the start of the open period keeps a calendar when it meets no later period. -/
theorem insertStub (h : Calendar P) {stub : BillingPeriod} (hcur : cur ∈ P)
    (hopen : cur.endDate = none) (hend : stub.endDate = some e)
    (hs : cur.startDate < stub.startDate) (he : stub.startDate ≤ e)
    (hnew : ∀ p ∈ P, p.startDate ≠ stub.startDate)
    (hclear : ∀ p ∈ P, cur.startDate < p.startDate → ∀ e', p.endDate = some e' →
      e' < stub.startDate ∨ e < p.startDate) : Calendar (insert stub P) := by
  have hspan : stub.span = ⟨stub.startDate.toOrdinal, some e.toOrdinal⟩ := by
    rw [BillingPeriod.span, hend]
    rfl
  refine ⟨?_, ?_, fun _ => ⟨cur, Set.mem_insert_of_mem _ hcur, hopen⟩⟩
  · rw [Set.image_insert_eq, hspan,
      timeline_insert_iff h.timeline (mem_span hcur) (span_stop hopen) hs he]
    · rintro _ ⟨p, hp, rfl⟩ hlt e' he'
      obtain ⟨d, hd, rfl⟩ := Option.map_eq_some_iff.mp he'
      exact hclear p hp hlt d hd
    · rintro _ ⟨p, hp, rfl⟩ heq
      exact hnew p hp (Date.toOrdinal_injective heq)
  · rintro p (rfl | hp) q (rfl | hq) heq
    · rfl
    · exact absurd heq.symm (hnew q hq)
    · exact absurd heq (hnew p hp)
    · exact h.unique hp hq heq

end Calendar

/-! ### The periods of an organisation -/

namespace Planning

variable {db db' : Planning} {org o : ℕ} {today : Date} {p q cur : BillingPeriod}

/-- The periods of an organisation. -/
def periodSet (db : Planning) (org : ℕ) : Set BillingPeriod :=
  {p | p ∈ db.billingPeriods.rows ∧ p.orgId = org}

theorem mem_periodSet : p ∈ db.periodSet org ↔ p ∈ db.billingPeriods.rows ∧ p.orgId = org := Iff.rfl

theorem mem_openPeriods : p ∈ openPeriods db org ↔ p ∈ db.periodSet org ∧ p.endDate = none := by
  simp [openPeriods, periodSet, List.mem_insertionSort, and_assoc]

theorem periodAt?_eq_none {start : Date} :
    periodAt? db org start = none ↔ ∀ p ∈ db.periodSet org, p.startDate ≠ start := by
  simp only [periodAt?, List.find?_eq_none, decide_eq_true_eq, not_and, mem_periodSet, and_imp,
    ne_eq]

theorem periodAt?_eq_some {start : Date} (h : periodAt? db org start = some p) :
    p ∈ db.periodSet org ∧ p.startDate = start := by
  have hp := List.find?_some h
  rw [decide_eq_true_eq] at hp
  exact ⟨⟨List.mem_of_find?_eq_some h, hp.1⟩, hp.2⟩

/-- Storing a period adds it to those of its organisation. -/
theorem periodSet_addPeriod (db : Planning) (p : BillingPeriod) (org : ℕ) :
    (addPeriod db p).periodSet org =
      if p.orgId = org then insert { p with id := db.billingPeriods.next } (db.periodSet org)
      else db.periodSet org := by
  ext x
  have hmem : x ∈ (addPeriod db p).billingPeriods.rows ↔
      x ∈ db.billingPeriods.rows ∨ x = { p with id := db.billingPeriods.next } := Table.mem_insert
  simp only [mem_periodSet, hmem]
  split_ifs with h
  · rw [Set.mem_insert_iff, mem_periodSet]
    constructor
    · rintro ⟨hx | rfl, horg⟩
      · exact .inr ⟨hx, horg⟩
      · exact .inl rfl
    · rintro (rfl | ⟨hx, horg⟩)
      · exact ⟨.inr rfl, h⟩
      · exact ⟨.inl hx, horg⟩
  · rw [mem_periodSet]
    constructor
    · rintro ⟨hx | rfl, horg⟩
      · exact ⟨hx, horg⟩
      · exact absurd horg h
    · exact fun ⟨hx, horg⟩ => ⟨.inl hx, horg⟩

/-- Writing a period back replaces the one it was read as. -/
theorem periodSet_putPeriod (p : BillingPeriod) (hq : q ∈ db.periodSet org) (hid : q.id = p.id)
    (horg : p.orgId = org) :
    (putPeriod db p).periodSet org = {x | x = p ∨ (x ∈ db.periodSet org ∧ x ≠ q)} := by
  ext x
  have hmem : x ∈ (putPeriod db p).billingPeriods.rows ↔
      x = p ∨ (x ∈ db.billingPeriods.rows ∧ x.id ≠ p.id) := Table.mem_put hq.1 hid
  have hne : x ∈ db.billingPeriods.rows → (x.id ≠ p.id ↔ x ≠ q) := fun hx => by
    rw [← hid]
    refine not_congr ⟨fun h => ?_, fun h => h ▸ rfl⟩
    exact Table.get?_inj (Table.get?_of_mem hx) (Table.get?_of_mem hq.1) h
  rw [mem_periodSet, hmem]
  constructor
  · rintro ⟨rfl | ⟨hx, hxid⟩, hxorg⟩
    · exact .inl rfl
    · exact .inr ⟨⟨hx, hxorg⟩, (hne hx).mp hxid⟩
  · rintro (rfl | ⟨⟨hx, hxorg⟩, hxq⟩)
    · exact ⟨.inl rfl, horg⟩
    · exact ⟨.inr ⟨hx, (hne hx).mpr hxq⟩, hxorg⟩

/-- Writing a period back leaves the periods of other organisations alone. -/
theorem periodSet_putPeriod_of_ne (p : BillingPeriod) (hq : q ∈ db.periodSet org)
    (hid : q.id = p.id) (horg : p.orgId = org) (ho : o ≠ org) :
    (putPeriod db p).periodSet o = db.periodSet o := by
  ext x
  have hmem : x ∈ (putPeriod db p).billingPeriods.rows ↔
      x = p ∨ (x ∈ db.billingPeriods.rows ∧ x.id ≠ p.id) := Table.mem_put hq.1 hid
  rw [mem_periodSet, mem_periodSet, hmem]
  constructor
  · rintro ⟨rfl | ⟨hx, -⟩, hxo⟩
    · exact absurd (hxo.symm.trans horg) ho
    · exact ⟨hx, hxo⟩
  · rintro ⟨hx, hxo⟩
    refine ⟨.inr ⟨hx, fun h => ho ?_⟩, hxo⟩
    have hxq : x = q :=
      Table.get?_inj (Table.get?_of_mem hx) (Table.get?_of_mem hq.1) (h.trans hid.symm)
    exact hxo.symm.trans (hxq ▸ hq.2)

/-- Every organisation has a calendar of periods. -/
def Calendars (db : Planning) : Prop :=
  ∀ o, Calendar (db.periodSet o)

/-- The database in which an operation works after it has read the open period: nothing has changed,
or the first period of the organisation was created. -/
structure Reads (db db' : Planning) (org : ℕ) (cur : BillingPeriod) : Prop where
  mem : cur ∈ db'.periodSet org
  opened : cur.endDate = none
  calendars : db'.Calendars
  before : db' = db ∨ (db.periodSet org = ∅ ∧ db'.periodSet org = {cur})
  organizations : db'.organizations = db.organizations

theorem Calendars.addFirst (h : db.Calendars) (hempty : db.periodSet org = ∅) (horg : p.orgId = org)
    (hopen : p.endDate = none) :
    (addPeriod db p).Calendars ∧
      (addPeriod db p).periodSet org = {{ p with id := db.billingPeriods.next }} := by
  have hset : (addPeriod db p).periodSet org = {{ p with id := db.billingPeriods.next }} := by
    rw [periodSet_addPeriod, if_pos horg, hempty, insert_empty_eq]
  refine ⟨fun o => ?_, hset⟩
  by_cases ho : o = org
  · rw [ho, hset]
    exact Calendar.singleton hopen
  · rw [periodSet_addPeriod, if_neg (fun h => ho (h.symm.trans horg))]
    exact h o

/-- The open period is read, or created as the first. -/
theorem getCurrentPeriod_reads (h : db.Calendars)
    (hget : getCurrentPeriod db org today = .ok (db', cur)) : db.Reads db' org cur := by
  unfold getCurrentPeriod at hget
  split at hget
  · next p l hopen =>
    rw [pure_eq_ok, Prod.mk.injEq] at hget
    obtain ⟨rfl, rfl⟩ := hget
    have hp : p ∈ openPeriods db org := by
      rw [hopen]
      exact List.mem_cons_self
    exact ⟨(mem_openPeriods.mp hp).1, (mem_openPeriods.mp hp).2, h, .inl rfl, rfl⟩
  · next hnone =>
    simp only [bind_eq_ok, pure_eq_ok] at hget
    obtain ⟨start, -, hcreate⟩ := hget
    -- Without an open period there is none at all.
    have hempty : db.periodSet org = ∅ := by
      by_contra hne
      obtain ⟨p, hp, hopen⟩ := (h org).live (Set.nonempty_iff_ne_empty.mpr hne)
      have hmem : p ∈ openPeriods db org := mem_openPeriods.mpr ⟨hp, hopen⟩
      rw [hnone] at hmem
      simp at hmem
    have hfree : periodAt? db org start = none := periodAt?_eq_none.mpr fun p hp => by
      rw [hempty] at hp
      exact absurd hp (Set.notMem_empty p)
    simp only [createCurrentPeriod, hfree, Prod.mk.injEq] at hcreate
    obtain ⟨rfl, rfl⟩ := hcreate
    obtain ⟨hcal, hset⟩ := h.addFirst (p := { orgId := org, startDate := start }) hempty rfl rfl
    exact ⟨hset ▸ rfl, rfl, hcal, .inr ⟨hempty, hset⟩, rfl⟩

/-- What an operation on the open period keeps. -/
theorem withCurrentPeriod_calendars {α : Type} (h : db.Calendars)
    {f : Planning → BillingPeriod → Except ServiceError (Planning × α)}
    (hf : ∀ db' cur db'' a, db.Reads db' org cur → f db' cur = .ok (db'', a) → db''.Calendars) :
    (withCurrentPeriod db org today f).1.Calendars := by
  unfold withCurrentPeriod
  split
  · exact h
  · next db' cur hget =>
    have hreads := getCurrentPeriod_reads h hget
    split
    · exact hreads.calendars
    · next db'' a hfa => exact hf db' cur db'' a hreads hfa

/-! ### Closing and moving the open period -/

theorem closeCurrent_calendars {c : Date} {db'' : Planning} {p : BillingPeriod}
    (h : db.Reads db' org cur)
    (hlater : ∀ p ∈ db'.periodSet org, cur.startDate < p.startDate → c < p.startDate)
    (hclose : closeCurrent org c db' cur = .ok (db'', p)) : db''.Calendars := by
  unfold closeCurrent at hclose
  rw [raiseIf_bind_eq_ok] at hclose
  obtain ⟨hc, hrest⟩ := hclose
  have hc' : cur.startDate ≤ c := Nat.le_of_not_lt hc
  set closed : BillingPeriod := { cur with endDate := some c } with hclosed
  have hput : (putPeriod db' closed).periodSet org =
      {x | x = closed ∨ (x ∈ db'.periodSet org ∧ x ≠ cur)} :=
    periodSet_putPeriod closed h.mem rfl h.mem.2
  have hother : ∀ o, o ≠ org → (putPeriod db' closed).periodSet o = db'.periodSet o := fun o ho =>
    periodSet_putPeriod_of_ne closed h.mem rfl h.mem.2 ho
  have hbefore : closed.startDate < c.nextDay := by
    rw [Date.lt_iff, Date.toOrdinal_nextDay]
    exact Nat.lt_succ_of_le hc'
  have hne : closed.startDate ≠ c.nextDay := fun heq => Nat.lt_irrefl _ (heq ▸ hbefore)
  dsimp only at hrest
  split at hrest
  · next existing hat =>
    rw [pure_eq_ok, Prod.mk.injEq] at hrest
    obtain ⟨rfl, -⟩ := hrest
    obtain ⟨hmem, hstart⟩ := periodAt?_eq_some hat
    have hset : (putPeriod (putPeriod db' closed) { existing with endDate := none }).periodSet org =
        Calendar.closeAt (db'.periodSet org) cur closed { existing with endDate := none } := by
      rw [periodSet_putPeriod { existing with endDate := none } hmem rfl hmem.2, hput]
      ext x
      simp only [Calendar.closeAt]
      constructor
      · rintro (rfl | ⟨rfl | ⟨hx, hxcur⟩, hxne⟩)
        · exact .inr (.inl rfl)
        · exact .inl rfl
        · refine .inr (.inr ⟨hx, hxcur, fun hxstart => hxne ?_⟩)
          rw [hput] at hmem
          rcases hmem with hmem | ⟨hmem, -⟩
          · exact absurd ((congrArg BillingPeriod.startDate hmem).symm.trans hstart) hne
          · exact (h.calendars org).unique hx hmem hxstart
      · rintro (rfl | rfl | ⟨hx, hxcur, hxstart⟩)
        · exact .inr ⟨.inl rfl, fun heq => hne ((congrArg _ heq).trans hstart)⟩
        · exact .inl rfl
        · exact .inr ⟨.inr ⟨hx, hxcur⟩, fun heq => hxstart (congrArg _ heq)⟩
    intro o
    by_cases ho : o = org
    · rw [ho, hset]
      exact (h.calendars org).closed h.mem h.opened hclosed hstart rfl hc' hlater
    · rw [periodSet_putPeriod_of_ne { existing with endDate := none } hmem rfl hmem.2 ho,
        hother o ho]
      exact h.calendars o
  · next hfree =>
    rw [pure_eq_ok, Prod.mk.injEq] at hrest
    obtain ⟨rfl, -⟩ := hrest
    have hfree' := periodAt?_eq_none.mp hfree
    intro o
    rw [periodSet_addPeriod]
    split_ifs with ho
    · subst ho
      have hset : insert (⟨(putPeriod db' closed).billingPeriods.next, org, c.nextDay, none⟩ :
            BillingPeriod) ((putPeriod db' closed).periodSet org) =
          Calendar.closeAt (db'.periodSet org) cur closed
            ⟨(putPeriod db' closed).billingPeriods.next, org, c.nextDay, none⟩ := by
        rw [hput] at hfree' ⊢
        ext x
        simp only [Calendar.closeAt, Set.mem_insert_iff]
        constructor
        · rintro (rfl | rfl | ⟨hx, hxcur⟩)
          · exact .inr (.inl rfl)
          · exact .inl rfl
          · exact .inr (.inr ⟨hx, hxcur, hfree' x (.inr ⟨hx, hxcur⟩)⟩)
        · rintro (rfl | rfl | ⟨hx, hxcur, -⟩)
          · exact .inr (.inl rfl)
          · exact .inl rfl
          · exact .inr (.inr ⟨hx, hxcur⟩)
      rw [hset]
      exact (h.calendars org).closed h.mem h.opened hclosed rfl rfl hc' hlater
    · rw [hother o (fun heq => ho heq.symm)]
      exact h.calendars o

theorem movePeriod_calendars {n : Date} {db'' : Planning} (h : db.Reads db' org cur)
    (hfree : ∀ p ∈ db'.periodSet org, p ≠ cur → ∀ e, p.endDate = some e →
      ¬(p.startDate ≤ n ∧ n ≤ e)) (hmove : movePeriod db' cur n = .ok db'') : db''.Calendars := by
  unfold movePeriod at hmove
  rw [raiseIf_bind_eq_ok, pure_eq_ok] at hmove
  obtain ⟨-, rfl⟩ := hmove
  intro o
  by_cases ho : o = org
  · rw [ho, periodSet_putPeriod { cur with startDate := n } h.mem rfl h.mem.2]
    exact (h.calendars org).moved h.mem h.opened rfl hfree
  · rw [periodSet_putPeriod_of_ne { cur with startDate := n } h.mem rfl h.mem.2 ho]
    exact h.calendars o

/-! ### Stubs -/

section Stubs

variable {cycleDay : ℕ} {base : Date} {i j : ℕ}

theorem onDay_congr {d d' : Date} (hyear : d.year = d'.year) (hmonth : d.month = d'.month) (k : ℕ) :
    d.onDay k = d'.onDay k := by
  unfold Date.onDay
  simp only [hyear, hmonth]

/-- A month after the start of a stub the next one starts. -/
theorem stubStart_succ (cycleDay : ℕ) (base : Date) (i : ℕ) :
    ((stubStart cycleDay base i).addMonths 1).onDay cycleDay = stubStart cycleDay base (i + 1) := by
  have := base.month_pos
  refine onDay_congr ?_ ?_ cycleDay
  · simp only [stubStart, Date.onDay, Date.addMonths]
    omega
  · simp only [stubStart, Date.onDay, Date.addMonths]
    omega

theorem stubStart_lt_succ (cycleDay : ℕ) (base : Date) (i : ℕ) :
    stubStart cycleDay base i < stubStart cycleDay base (i + 1) := by
  refine Date.lt_of_month_lt ?_
  simp only [stubStart, Date.onDay, Date.addMonths]
  omega

theorem stubStart_mono (cycleDay : ℕ) (base : Date) (h : i ≤ j) :
    stubStart cycleDay base i ≤ stubStart cycleDay base j := by
  induction j, h using Nat.le_induction with
  | base => exact Nat.le_refl _
  | succ j _ ih => exact Nat.le_trans ih (Nat.le_of_lt (stubStart_lt_succ cycleDay base j))

theorem lt_stubStart (cycleDay : ℕ) (base : Date) (hi : 1 ≤ i) :
    base < stubStart cycleDay base i := by
  have := base.month_pos
  have := base.month_le
  refine Date.lt_of_month_lt ?_
  simp only [stubStart, Date.onDay, Date.addMonths]
  omega

/-- A stub ends on the day before the next one starts. -/
theorem stubFrom_endDate (cycleDay : ℕ) (base : Date) (hi : 1 ≤ i) : ∃ e,
    (stubFrom org cycleDay (stubStart cycleDay base i)).endDate = some e ∧
      e.toOrdinal + 1 = (stubStart cycleDay base (i + 1)).toOrdinal := by
  refine ⟨_, rfl, ?_⟩
  rw [stubStart_succ]
  refine Date.toOrdinal_prevDay ?_
  have hbase := Date.lt_iff.mp (lt_stubStart cycleDay base hi)
  have hnext := Date.lt_iff.mp (stubStart_lt_succ cycleDay base i)
  omega

end Stubs

/-- No stub that would be created for the months after a period meets a later period. -/
def StubsClear (db : Planning) (org count : ℕ) (cur : BillingPeriod) : Prop :=
  ∀ i < count, periodAt? db org (stubStart (cycleDayOf db org) cur.startDate (i + 1)) = none →
    ∀ p ∈ db.billingPeriods.rows, p.orgId = org → cur.startDate < p.startDate → ∀ e ∈ p.endDate,
      e < stubStart (cycleDayOf db org) cur.startDate (i + 1) ∨
        stubStart (cycleDayOf db org) cur.startDate (i + 2) ≤ p.startDate

/-- The periods while stubs are created: those from before, and the stubs of the months so far. -/
structure Extended (before now : Planning) (org cycleDay : ℕ) (base : Date) (k : ℕ) : Prop where
  calendars : now.Calendars
  kept : before.periodSet org ⊆ now.periodSet org
  new : ∀ p ∈ now.periodSet org, p ∈ before.periodSet org ∨
    ∃ j < k, p.startDate = stubStart cycleDay base (j + 1) ∧
      p.endDate = (stubFrom org cycleDay (stubStart cycleDay base (j + 1))).endDate

theorem ensureStub_extended {k count : ℕ} {s : Planning × List BillingPeriod}
    (h : db.Reads db' org cur) (hclear : db'.StubsClear org count cur) (hk : k < count)
    (hs : db'.Extended s.1 org (cycleDayOf db' org) cur.startDate k) :
    db'.Extended (ensureStub org (cycleDayOf db' org) cur.startDate s (k + 1)).1 org
      (cycleDayOf db' org) cur.startDate (k + 1) := by
  set day := cycleDayOf db' org with hday
  have hmore : ∀ p ∈ s.1.periodSet org, p ∈ db'.periodSet org ∨ ∃ j < k + 1,
      p.startDate = stubStart day cur.startDate (j + 1) ∧
        p.endDate = (stubFrom org day (stubStart day cur.startDate (j + 1))).endDate := fun p hp =>
    (hs.new p hp).imp_right fun ⟨j, hj, hstub⟩ => ⟨j, by omega, hstub⟩
  unfold ensureStub
  split
  · exact ⟨hs.calendars, hs.kept, hmore⟩
  · next hnone =>
    have hfree := periodAt?_eq_none.mp hnone
    obtain ⟨e, he, hnext⟩ := @stubFrom_endDate org (k + 1) day cur.startDate (by omega)
    have hlt := Date.lt_iff.mp (stubStart_lt_succ day cur.startDate (k + 1))
    -- The new stub is clear of the periods from before and follows the stubs of this request.
    have hclear' : ∀ p ∈ s.1.periodSet org, cur.startDate < p.startDate →
        ∀ e', p.endDate = some e' → e' < stubStart day cur.startDate (k + 1) ∨ e < p.startDate := by
      intro p hp hlater e' he'
      rcases hs.new p hp with hold | ⟨j, hj, -, hend⟩
      · have hnone' : periodAt? db' org (stubStart day cur.startDate (k + 1)) = none :=
          periodAt?_eq_none.mpr fun q hq => hfree q (hs.kept hq)
        rcases hclear k hk hnone' p hold.1 hold.2 hlater e' he' with hend | hstart
        · exact .inl hend
        · refine .inr (Date.lt_iff.mpr ?_)
          have hafter :
              (stubStart day cur.startDate (k + 1 + 1)).toOrdinal ≤ p.startDate.toOrdinal :=
            hstart
          omega
      · obtain ⟨e'', he'', hnext'⟩ :=
          @stubFrom_endDate org (j + 1) day cur.startDate (by omega)
        rw [he', he''] at hend
        obtain rfl := Option.some.inj hend
        have hmono := Date.le_iff.mp
          (stubStart_mono day cur.startDate (show j + 1 + 1 ≤ k + 1 by omega))
        exact .inl (Date.lt_iff.mpr (by omega))
    have hcal : Calendar (insert { stubFrom org day (stubStart day cur.startDate (k + 1)) with
        id := s.1.billingPeriods.next } (s.1.periodSet org)) :=
      (hs.calendars org).insertStub (hs.kept h.mem) h.opened he
        (lt_stubStart day cur.startDate (by omega)) (Date.le_iff.mpr (by
          show (stubStart day cur.startDate (k + 1)).toOrdinal ≤ e.toOrdinal
          omega)) hfree hclear'
    have hset : ∀ o, (addPeriod s.1
        (stubFrom org day (stubStart day cur.startDate (k + 1)))).periodSet o =
        if org = o then insert { stubFrom org day (stubStart day cur.startDate (k + 1)) with
          id := s.1.billingPeriods.next } (s.1.periodSet o) else s.1.periodSet o :=
      fun o => periodSet_addPeriod _ _ o
    refine ⟨fun o => ?_, ?_, ?_⟩
    · rw [hset]
      split_ifs with ho
      · exact ho ▸ hcal
      · exact hs.calendars o
    · rw [hset, if_pos rfl]
      exact hs.kept.trans (Set.subset_insert _ _)
    · rw [hset, if_pos rfl]
      rintro p (rfl | hp)
      · exact .inr ⟨k, by omega, rfl, rfl⟩
      · exact hmore p hp

theorem ensureStubs_extended {count : ℕ} (h : db.Reads db' org cur)
    (hclear : db'.StubsClear org count cur) (k : ℕ) (hk : k ≤ count) :
    db'.Extended (((List.range k).map (· + 1)).foldl
      (ensureStub org (cycleDayOf db' org) cur.startDate) (db', [])).1 org (cycleDayOf db' org)
      cur.startDate k := by
  induction k with
  | zero => exact ⟨h.calendars, subset_rfl, fun p hp => .inl hp⟩
  | succ k ih =>
    rw [List.range_succ, List.map_append, List.foldl_append]
    exact ensureStub_extended h hclear hk (ih (by omega))

/-! ### What the rows say -/

/-- A period covers a date: a closed one until its end, an open one until the next later period of
its organisation starts. -/
def Covers (db : Planning) (p : BillingPeriod) (x : Date) : Prop :=
  p.startDate ≤ x ∧ (∀ e, p.endDate = some e → x ≤ e) ∧
    (p.endDate = none → ∀ q ∈ db.billingPeriods.rows, q.orgId = p.orgId →
      p.startDate < q.startDate → x < q.startDate)

theorem covers_of_closed {x e : Date} (hend : p.endDate = some e) (hstart : p.startDate ≤ x)
    (hx : x ≤ e) : db.Covers p x :=
  ⟨hstart, fun e' he' => Option.some.inj (hend.symm.trans he') ▸ hx, fun hnone => by
    simp [hend] at hnone⟩

/-- An organisation has at most one open period, and no date lies in two of its periods. -/
structure Partitions (db : Planning) (org : ℕ) : Prop where
  opened : ∀ p ∈ db.billingPeriods.rows, ∀ q ∈ db.billingPeriods.rows, p.orgId = org →
    q.orgId = org → p.endDate = none → q.endDate = none → p = q
  apart : ∀ p ∈ db.billingPeriods.rows, ∀ q ∈ db.billingPeriods.rows, p.orgId = org →
    q.orgId = org → ∀ x, db.Covers p x → db.Covers q x → p = q

/-- A calendar of periods partitions time. -/
theorem Calendars.partitions (h : db.Calendars) (org : ℕ) : db.Partitions org := by
  refine ⟨fun p hp q hq hpo hqo => (h org).opened ⟨hp, hpo⟩ ⟨hq, hqo⟩,
    fun p hp q hq hpo hqo x hpx hqx => ?_⟩
  have hspan : ∀ r, r.orgId = org → db.Covers r x →
      r.span.Covers (BillingPeriod.span '' db.periodSet org) x.toOrdinal := by
    rintro r hr ⟨hstart, hend, hopen⟩
    refine ⟨hstart, fun e he => ?_, fun hnone => ?_⟩
    · obtain ⟨d, hd, rfl⟩ := Option.map_eq_some_iff.mp he
      exact hend d hd
    · rintro _ ⟨s, hs, rfl⟩ hlt
      exact hopen (Option.map_eq_none_iff.mp hnone) s hs.1 (hs.2.trans hr.symm) hlt
  exact (h org).span_inj ⟨hp, hpo⟩ ⟨hq, hqo⟩ ((h org).timeline.disjoint _
    (Calendar.mem_span ⟨hp, hpo⟩) _ (Calendar.mem_span ⟨hq, hqo⟩) _ (hspan p hpo hpx)
    (hspan q hqo hqx))

end Planning

/-! ### Requests -/

/-- A request about billing periods. -/
inductive PeriodRequest
  | current (org : ℕ) (today : Date)
  | ensureFuture (org : ℕ) (today : Date) (count : ℕ)
  | close (org : ℕ) (today : Date) (closeDate : Option Date)
  | updateCycle (org : ℕ) (today : Date) (body : BillingCycleUpdate)

namespace PeriodRequest

/-- Serve a request: the database it leaves and whether it fails. -/
def serve (db : Planning) : PeriodRequest → Outcome Unit
  | current org today => withCurrentPeriod db org today fun db _ => pure (db, ())
  | ensureFuture org today count =>
      let r := ensureFuturePeriods db org today count
      (r.1, r.2.map fun _ => ())
  | close org today closeDate =>
      let r := closePeriod db org today closeDate
      (r.1, r.2.map fun _ => ())
  | updateCycle org today body => updateBillingCycle db org today body

/-- The database after a request, as a step that commits whatever the outcome. -/
def step (db : Planning) (r : PeriodRequest) : Except Empty Planning :=
  .ok (r.serve db).1

/-- When a request keeps periods apart: no later period starts up to the close date, no other period
covers the recalculated start, and no stub that is missing meets a later period. -/
def Fits (db : Planning) : PeriodRequest → Prop
  | current .. => True
  | ensureFuture org _ count => ∀ cur ∈ openPeriods db org, db.StubsClear org count cur
  | close org today closeDate => ∀ cur ∈ openPeriods db org, ∀ p ∈ db.billingPeriods.rows,
      p.orgId = org → cur.startDate < p.startDate → closeDate.getD today.prevDay < p.startDate
  | updateCycle org today body => ∀ cur ∈ openPeriods db org,
      ∀ start ∈ (cycleStart today body.billingCycleDay).toOption, ∀ p ∈ db.billingPeriods.rows,
        p.orgId = org → p.id ≠ cur.id → ∀ e ∈ p.endDate, ¬(p.startDate ≤ start ∧ start ≤ e)

instance (db : Planning) (org count : ℕ) (cur : BillingPeriod) :
    Decidable (db.StubsClear org count cur) :=
  inferInstanceAs (Decidable (∀ i < count, _ → ∀ p ∈ db.billingPeriods.rows,
    p.orgId = org → cur.startDate < p.startDate → ∀ e ∈ p.endDate, _ ∨ _))

instance (db : Planning) : ∀ r : PeriodRequest, Decidable (r.Fits db)
  | current .. => .isTrue trivial
  | ensureFuture org _ count =>
      inferInstanceAs (Decidable (∀ cur ∈ openPeriods db org, db.StubsClear org count cur))
  | close org _ _ =>
      inferInstanceAs (Decidable (∀ cur ∈ openPeriods db org, ∀ p ∈ db.billingPeriods.rows,
        p.orgId = org → cur.startDate < p.startDate → _))
  | updateCycle org today body =>
      inferInstanceAs (Decidable (∀ cur ∈ openPeriods db org,
        ∀ start ∈ (cycleStart today body.billingCycleDay).toOption, ∀ p ∈ db.billingPeriods.rows,
          p.orgId = org → p.id ≠ cur.id → ∀ e ∈ p.endDate, ¬(p.startDate ≤ start ∧ start ≤ e)))

variable {db : Planning}

theorem cycleStart_error {today : Date} {day : ℕ} {e : ServiceError}
    (h : cycleStart today day = .error e) : e = dayOutOfRange := by
  have hraise : ∀ o : Option Date, orRaise o dayOutOfRange = .error e → e = dayOutOfRange := by
    intro o ho
    cases o with
    | none => exact (Except.error.inj ho).symm
    | some d => simp [orRaise] at ho
  unfold cycleStart at h
  split_ifs at h <;> exact hraise _ h

theorem getCurrentPeriod_error {org : ℕ} {today : Date} {e : ServiceError}
    (h : getCurrentPeriod db org today = .error e) : e = dayOutOfRange := by
  unfold getCurrentPeriod at h
  split at h
  · simp [pure, Except.pure] at h
  · cases hstart : cycleStart today (cycleDayOf db org) with
    | ok start =>
      rw [bind_of_ok hstart] at h
      simp [pure, Except.pure] at h
    | error e' =>
      rw [bind_of_error hstart] at h
      exact Except.error.inj h ▸ cycleStart_error hstart

/-- An operation on the open period does not fail on the key of periods unless its own part does. -/
theorem withCurrentPeriod_ne_keyTaken {α : Type} {org : ℕ} {today : Date}
    {f : Planning → BillingPeriod → Except ServiceError (Planning × α)}
    (hf : ∀ db' cur, f db' cur ≠ .error periodKeyTaken) :
    (withCurrentPeriod db org today f).2 ≠ .error periodKeyTaken := by
  unfold withCurrentPeriod
  split
  · next e hget =>
    rw [getCurrentPeriod_error hget]
    simp [dayOutOfRange, periodKeyTaken]
  · next db' cur _ =>
    have h := hf db' cur
    split
    · next e hfe =>
      rw [hfe] at h
      exact fun heq => h (congrArg Except.error (Except.error.inj heq))
    · simp

/-- A check that raises another error leaves the errors of the rest. -/
theorem raiseIf_bind_ne {α : Type} {c : Prop} [Decidable c] {e e' : ServiceError}
    {f : Unit → Except ServiceError α} (he : e ≠ e') (hf : f () ≠ .error e') :
    (raiseIf c e >>= f) ≠ .error e' := by
  by_cases hc : c
  · rw [bind_of_error (raiseIf_of hc)]
    exact fun heq => he (Except.error.inj heq)
  · rw [bind_of_ok (raiseIf_of_not hc)]
    exact hf

theorem closeCurrent_ne_keyTaken {org : ℕ} {c : Date} (db' : Planning) (cur : BillingPeriod) :
    closeCurrent org c db' cur ≠ .error periodKeyTaken := by
  unfold closeCurrent
  refine raiseIf_bind_ne (by simp [periodKeyTaken]) ?_
  dsimp only
  split <;> simp [pure, Except.pure]

theorem moveBudgets_ne_keyTaken (db : Planning) (org : ℕ) (old new : Date) :
    moveBudgets db org old new ≠ .error periodKeyTaken :=
  raiseIf_bind_ne (by simp [periodKeyTaken]) (by simp [pure, Except.pure])

/-- What reading the open period gives for a database in which the new cycle day is pending. -/
theorem free_of_fits {org : ℕ} {today start : Date} {body : BillingCycleUpdate} {read : Planning}
    {cur : BillingPeriod} (hfits : (updateCycle org today body).Fits db)
    (hreads : (setCycleDay db org body.billingCycleDay).Reads read org cur)
    (hstart : cycleStart today body.billingCycleDay = .ok start) :
    ∀ p ∈ read.periodSet org, p ≠ cur → ∀ e, p.endDate = some e →
      ¬(p.startDate ≤ start ∧ start ≤ e) := by
  have hok : start ∈ (cycleStart today body.billingCycleDay).toOption := by
    rw [hstart]
    rfl
  rcases hreads.before with rfl | ⟨-, hset⟩
  · intro p hp hne e he
    refine hfits cur (Planning.mem_openPeriods.mpr ⟨hreads.mem, hreads.opened⟩) start hok p
      hp.1 hp.2
      (fun hid => hne ?_) e he
    exact Table.get?_inj (Table.get?_of_mem hp.1) (Table.get?_of_mem hreads.mem.1) hid
  · intro p hp hne
    rw [hset] at hp
    exact absurd hp hne

theorem recalculatePeriod_calendars {org : ℕ} {today : Date} {body : BillingCycleUpdate}
    {read db'' : Planning} {cur : BillingPeriod} (hfits : (updateCycle org today body).Fits db)
    (hreads : (setCycleDay db org body.billingCycleDay).Reads read org cur)
    (h : recalculatePeriod org today body.billingCycleDay read cur = .ok db'') :
    db''.Calendars := by
  unfold recalculatePeriod at h
  rw [if_pos hreads.opened, bind_eq_ok] at h
  obtain ⟨start, hstart, h⟩ := h
  rw [bind_eq_ok] at h
  obtain ⟨moved, hmove, h⟩ := h
  have hmoved := Planning.movePeriod_calendars hreads (free_of_fits hfits hreads hstart) hmove
  split_ifs at h
  · unfold moveBudgets at h
    dsimp only at h
    rw [raiseIf_bind_eq_ok, pure_eq_ok] at h
    obtain ⟨-, rfl⟩ := h
    exact hmoved
  · rw [pure_eq_ok] at h
    exact h ▸ hmoved

theorem recalculatePeriod_ne_keyTaken {org : ℕ} {today : Date} {body : BillingCycleUpdate}
    {read : Planning} {cur : BillingPeriod} (hfits : (updateCycle org today body).Fits db)
    (hreads : (setCycleDay db org body.billingCycleDay).Reads read org cur) :
    recalculatePeriod org today body.billingCycleDay read cur ≠ .error periodKeyTaken := by
  unfold recalculatePeriod
  rw [if_pos hreads.opened]
  cases hstart : cycleStart today body.billingCycleDay with
  | error e =>
    rw [bind_of_error rfl, cycleStart_error hstart]
    simp [dayOutOfRange, periodKeyTaken]
  | ok start =>
    have hfree := free_of_fits hfits hreads hstart
    have hmove :
        movePeriod read cur start = .ok (putPeriod read { cur with startDate := start }) := by
      unfold movePeriod
      refine bind_of_ok (raiseIf_of_not ?_)
      rintro ⟨q, hq, hid, horg, hqs⟩
      have hq' : q ∈ read.periodSet org := ⟨hq, horg.trans hreads.mem.2⟩
      have hne : q ≠ cur := fun heq => hid (heq ▸ rfl)
      obtain ⟨e, he⟩ : ∃ e, q.endDate = some e := by
        cases hend : q.endDate with
        | none => exact absurd ((hreads.calendars org).opened hq' hreads.mem hend hreads.opened) hne
        | some e => exact ⟨e, rfl⟩
      have hle : q.startDate ≤ e := (hreads.calendars org).timeline.nonempty _
        (Calendar.mem_span hq') e.toOrdinal (by rw [BillingPeriod.span, he]; rfl)
      exact hfree q hq' hne e he ⟨hqs ▸ Nat.le_refl _, hqs ▸ hle⟩
    rw [bind_of_ok rfl, bind_of_ok hmove]
    split_ifs
    · exact moveBudgets_ne_keyTaken _ org _ start
    · simp [pure, Except.pure]

theorem map_ne_keyTaken {α β : Type} {x : Except ServiceError α} {f : α → β}
    (h : x ≠ .error periodKeyTaken) : x.map f ≠ .error periodKeyTaken := by
  cases x with
  | ok a => simp [Except.map]
  | error e => exact fun heq => h (congrArg Except.error (Except.error.inj heq))

/-- A request that fits keeps the calendars of all organisations. -/
theorem serve_calendars (h : db.Calendars) {r : PeriodRequest} (hfits : r.Fits db) :
    (r.serve db).1.Calendars := by
  cases r with
  | current org today =>
    refine Planning.withCurrentPeriod_calendars h fun db' cur db'' a hreads hf => ?_
    rw [pure_eq_ok, Prod.mk.injEq] at hf
    exact hf.1 ▸ hreads.calendars
  | ensureFuture org today count =>
    refine Planning.withCurrentPeriod_calendars h fun db' cur db'' a hreads hf => ?_
    have hclear : db'.StubsClear org count cur := by
      rcases hreads.before with rfl | ⟨-, hset⟩
      · exact hfits cur (Planning.mem_openPeriods.mpr ⟨hreads.mem, hreads.opened⟩)
      · intro i _ _ p hp horg hlater
        have hp' : p ∈ db'.periodSet org := ⟨hp, horg⟩
        rw [hset] at hp'
        exact absurd (hp' ▸ hlater) (Nat.lt_irrefl _)
    rw [pure_eq_ok] at hf
    have hdb : _ = db'' := congrArg Prod.fst hf
    exact hdb ▸ (Planning.ensureStubs_extended hreads hclear count le_rfl).calendars
  | close org today closeDate =>
    refine Planning.withCurrentPeriod_calendars h fun db' cur db'' a hreads hf => ?_
    refine Planning.closeCurrent_calendars hreads ?_ hf
    rcases hreads.before with rfl | ⟨-, hset⟩
    · exact fun p hp =>
        hfits cur (Planning.mem_openPeriods.mpr ⟨hreads.mem, hreads.opened⟩) p hp.1 hp.2
    · intro p hp hlater
      rw [hset] at hp
      exact absurd (hp ▸ hlater) (Nat.lt_irrefl _)
  | updateCycle org today body =>
    have hstaged : (setCycleDay db org body.billingCycleDay).Calendars := h
    simp only [serve, updateBillingCycle]
    split
    · exact h
    · by_cases htaken : firstPeriodTaken (setCycleDay db org body.billingCycleDay) org today = true
      · rw [if_pos htaken]
        exact h
      · rw [if_neg htaken]
        split
        · exact h
        · next read cur hget =>
          have hreads := Planning.getCurrentPeriod_reads hstaged hget
          split
          · split_ifs
            · exact hreads.calendars
            · exact h
          · next db'' hrec => exact recalculatePeriod_calendars hfits hreads hrec

/-- A request that fits does not fail on the key of periods. -/
theorem serve_ne_keyTaken (h : db.Calendars) {r : PeriodRequest} (hfits : r.Fits db) :
    (r.serve db).2 ≠ .error periodKeyTaken := by
  cases r with
  | current org today =>
    exact withCurrentPeriod_ne_keyTaken fun db' cur => by simp [pure, Except.pure]
  | ensureFuture org today count =>
    exact map_ne_keyTaken (withCurrentPeriod_ne_keyTaken fun db' cur => by simp [pure, Except.pure])
  | close org today closeDate =>
    exact map_ne_keyTaken (withCurrentPeriod_ne_keyTaken closeCurrent_ne_keyTaken)
  | updateCycle org today body =>
    have hstaged : (setCycleDay db org body.billingCycleDay).Calendars := h
    simp only [serve, updateBillingCycle]
    split
    · simp [periodKeyTaken]
    · by_cases htaken : firstPeriodTaken (setCycleDay db org body.billingCycleDay) org today = true
      · rw [if_pos htaken]
        simp [periodKeyTaken]
      · rw [if_neg htaken]
        split
        · next e hget =>
          rw [getCurrentPeriod_error hget]
          simp [dayOutOfRange, periodKeyTaken]
        · next read cur hget =>
          have hreads := Planning.getCurrentPeriod_reads hstaged hget
          have hne := recalculatePeriod_ne_keyTaken hfits hreads
          split
          · next e hrec =>
            rw [hrec] at hne
            exact fun heq => hne (congrArg Except.error (Except.error.inj heq))
          · simp

end PeriodRequest

/-- In every run of requests that fit, from an empty table of periods on, no request fails on the
key of periods, and every organisation has at most one open period and no date in two of its
periods. -/
theorem periods_partition_time {db : Planning} (hdb : db.billingPeriods.rows = [])
    {rs : List PeriodRequest} (hrs : Admits PeriodRequest.Fits PeriodRequest.step db rs) :
    (∀ org, (serveAll PeriodRequest.step db rs).Partitions org) ∧
      ∀ rs₁ r rs₂, rs = rs₁ ++ r :: rs₂ →
        (r.serve (serveAll PeriodRequest.step db rs₁)).2 ≠ .error periodKeyTaken := by
  have hempty : db.Calendars := fun o => by
    have hset : db.periodSet o = ∅ := by
      ext p
      simp [Planning.periodSet, hdb]
    rw [hset]
    exact Calendar.empty
  have hrun : ∀ rs, Admits PeriodRequest.Fits PeriodRequest.step db rs →
      (serveAll PeriodRequest.step db rs).Calendars := fun rs hrs =>
    serveAll_invariant (I := Planning.Calendars)
      (fun s r s' hs hr hstep => Except.ok.inj hstep ▸ PeriodRequest.serve_calendars hs hr) rs
        hempty hrs
  refine ⟨fun org => (hrun rs hrs).partitions org, ?_⟩
  rintro rs₁ r rs₂ rfl
  obtain ⟨hbefore, hafter⟩ := hrs.of_append
  exact PeriodRequest.serve_ne_keyTaken (hrun rs₁ hbefore) hafter.1

/-! ### Sample runs -/

/-- A day of 2024. -/
def sampleDay (month day : ℕ) : Date := .of 2024 month day

/-- An organisation whose cycle starts on the first, without periods. -/
def samplePlanning : Planning where
  accountTypes := .empty
  accounts := .empty
  categories := .empty
  transactions := .empty
  recurring := .empty
  importBatches := .empty
  categoryRules := .empty
  budgets := .empty
  forecastPlans := .empty
  forecastPlanItems := .empty
  organizations := Table.empty.insert { name := "Home" }
  billingPeriods := .empty

/-- In January, with a stub for February: the period is closed on its last day, and the stub is
opened. -/
def sampleMonthEnd : List PeriodRequest :=
  [.current 1 (sampleDay 1 15),
    .ensureFuture 1 (sampleDay 1 15) 1,
    .close 1 (sampleDay 2 1) none]

theorem partition_of_sampleMonthEnd :
    samplePlanning.billingPeriods.rows = [] ∧
      Admits PeriodRequest.Fits PeriodRequest.step samplePlanning sampleMonthEnd ∧
      (∀ org, (serveAll PeriodRequest.step samplePlanning sampleMonthEnd).Partitions org) ∧
        ∀ rs₁ r rs₂, sampleMonthEnd = rs₁ ++ r :: rs₂ →
          (r.serve (serveAll PeriodRequest.step samplePlanning rs₁)).2 ≠ .error periodKeyTaken :=
  have h : Admits PeriodRequest.Fits PeriodRequest.step samplePlanning sampleMonthEnd := by
    decide +kernel
  ⟨rfl, h, periods_partition_time rfl h⟩

/-- The same, but the period is closed in the middle of the stub. -/
def sampleLateClose : List PeriodRequest :=
  [.current 1 (sampleDay 1 15),
    .ensureFuture 1 (sampleDay 1 15) 1,
    .close 1 (sampleDay 2 11) none]

/-- A period that was closed early, before the cycle is set to the day it started on. -/
def sampleEarlyClose : List PeriodRequest :=
  [.current 1 (sampleDay 1 15),
    .close 1 (sampleDay 1 21) none]

def sampleCycleChange : PeriodRequest :=
  .updateCycle 1 (sampleDay 1 25) ⟨1, by decide, by decide⟩

/-- After the late close, February 5 lies in the closed period and in the stub; after the early
close, the change of the cycle fails on the key of periods. -/
theorem not_partition_of_samples :
    ¬(serveAll PeriodRequest.step samplePlanning sampleLateClose).Partitions 1 ∧
      (sampleCycleChange.serve
        (serveAll PeriodRequest.step samplePlanning sampleEarlyClose)).2 =
          .error periodKeyTaken := by
  refine ⟨fun h => ?_, by decide +kernel⟩
  have hrows : (serveAll PeriodRequest.step samplePlanning sampleLateClose).billingPeriods.rows =
      [⟨1, 1, sampleDay 1 1, some (sampleDay 2 10)⟩,
        ⟨2, 1, sampleDay 2 1,
          some (sampleDay 2 28).nextDay⟩,
        ⟨3, 1, sampleDay 2 11, none⟩] := by
    decide +kernel
  have happart := h.apart
  rw [hrows] at happart
  have hsame := happart _ (.head _) _ (.tail _ (.head _)) rfl rfl
    (sampleDay 2 5)
    (Planning.covers_of_closed rfl (by decide +kernel) (by decide +kernel))
    (Planning.covers_of_closed rfl (by decide +kernel) (by decide +kernel))
  exact absurd (congrArg BillingPeriod.id hsame) (by decide)

end Pfv
