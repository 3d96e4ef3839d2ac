import Pfv.Ledger.Requests
import Pfv.Planning.Partition
import Pfv.Services.Budgets

/-!
# Budgets and their periods

Every budget starts with a period of its organisation, and stays with it: closing a period or
creating stubs moves no start, and a change of the billing cycle moves the budgets with the period.
An organisation that has periods always has an open one, so that reading the open period creates
nothing once a budget exists.

## Main definitions

* `Planning.Anchored`: starts are unique, an organisation with periods has an open one, and every
  budget starts with a period.
* `BudgetRequest`, `PlanningRequest`: the requests about budgets, and those of a run.

## Main results

* `Planning.Anchored.getCurrentPeriod`: reading the open period keeps budgets anchored.
* `PlanningRequest.step_anchored`, `anchored_of_run`: so does every request, and every run.
-/

namespace Pfv

namespace Planning

/-- The starts of the periods of an organisation are different, an organisation with periods has an
open one, and every budget starts with a period. -/
structure Anchored (db : Planning) : Prop where
  ledger : db.WellFormed
  starts : ∀ o, Set.InjOn BillingPeriod.startDate (db.periodSet o)
  opened : ∀ o, (db.periodSet o).Nonempty → ∃ p ∈ db.periodSet o, p.endDate = none
  anchored : ∀ b ∈ db.budgets.rows, ∃ p ∈ db.periodSet b.orgId, p.startDate = b.periodStart

variable {db db' : Planning} {org o : ℕ} {p q cur : BillingPeriod} {today : Date}

/-! ### Periods that change -/

theorem Anchored.periodAt?_eq (h : db.Anchored) (hp : p ∈ db.periodSet org) :
    periodAt? db org p.startDate = some p := by
  cases hat : periodAt? db org p.startDate with
  | none => exact absurd rfl (periodAt?_eq_none.mp hat p hp)
  | some q =>
    obtain ⟨hq, hstart⟩ := periodAt?_eq_some hat
    rw [h.starts org hq hp hstart]

/-- Storing a period whose start is free keeps starts apart. -/
theorem injOn_addPeriod (h : Set.InjOn BillingPeriod.startDate (db.periodSet o))
    (hfree : periodAt? db p.orgId p.startDate = none) :
    Set.InjOn BillingPeriod.startDate ((addPeriod db p).periodSet o) := by
  rw [periodSet_addPeriod]
  split_ifs with horg
  · subst horg
    have hfree' := periodAt?_eq_none.mp hfree
    rintro x (rfl | hx) y (rfl | hy) heq
    · rfl
    · exact absurd heq.symm (hfree' y hy)
    · exact absurd heq (hfree' x hx)
    · exact h hx hy heq
  · exact h

theorem subset_addPeriod : db.periodSet o ⊆ (addPeriod db p).periodSet o := by
  rw [periodSet_addPeriod]
  split_ifs
  · exact Set.subset_insert _ _
  · exact subset_rfl

/-- Writing a period back keeps starts apart when no other period has its start. -/
theorem injOn_putPeriod (h : Set.InjOn BillingPeriod.startDate (db.periodSet o))
    (hq : q ∈ db.periodSet org) (hid : q.id = p.id) (horg : p.orgId = org)
    (hfree : ∀ x ∈ db.periodSet org, x ≠ q → x.startDate ≠ p.startDate) :
    Set.InjOn BillingPeriod.startDate ((putPeriod db p).periodSet o) := by
  by_cases ho : o = org
  · subst ho
    rw [periodSet_putPeriod p hq hid horg]
    rintro x (rfl | ⟨hx, hxq⟩) y (rfl | ⟨hy, hyq⟩) heq
    · rfl
    · exact absurd heq.symm (hfree y hy hyq)
    · exact absurd heq (hfree x hx hxq)
    · exact h hx hy heq
  · rw [periodSet_putPeriod_of_ne p hq hid horg ho]
    exact h

/-- The other periods are still there after one is written back. -/
theorem mem_putPeriod (hq : q ∈ db.periodSet org) (hid : q.id = p.id) (horg : p.orgId = org)
    {x : BillingPeriod} (hx : x ∈ db.periodSet o) (hxq : x ≠ q) :
    x ∈ (putPeriod db p).periodSet o := by
  by_cases ho : o = org
  · subst ho
    rw [periodSet_putPeriod p hq hid horg]
    exact .inr ⟨hx, hxq⟩
  · rw [periodSet_putPeriod_of_ne p hq hid horg ho]
    exact hx

theorem self_mem_putPeriod (hq : q ∈ db.periodSet org) (hid : q.id = p.id) (horg : p.orgId = org) :
    p ∈ (putPeriod db p).periodSet org := by
  rw [periodSet_putPeriod p hq hid horg]
  exact .inl rfl

/-- A period written back with its start keeps its place. -/
theorem exists_start_putPeriod (hq : q ∈ db.periodSet org) (hid : q.id = p.id)
    (horg : p.orgId = org) (hstart : p.startDate = q.startDate) {x : BillingPeriod}
    (hx : x ∈ db.periodSet o) :
    ∃ y ∈ (putPeriod db p).periodSet o, y.startDate = x.startDate := by
  by_cases hxq : x = q
  · subst hxq
    obtain rfl : o = org := hx.2.symm.trans hq.2
    exact ⟨p, self_mem_putPeriod hq hid horg, hstart⟩
  · exact ⟨x, mem_putPeriod hq hid horg hx hxq, rfl⟩

/-- Storing a period with a free start keeps budgets anchored, unless it is a first period that is
closed. -/
theorem Anchored.addPeriod (h : db.Anchored)
    (hfree : periodAt? db p.orgId p.startDate = none)
    (hopen : p.endDate = none ∨ (db.periodSet p.orgId).Nonempty) :
    (addPeriod db p).Anchored where
  ledger := h.ledger
  starts o := injOn_addPeriod (h.starts o) hfree
  opened o hne := by
    by_cases ho : (db.periodSet o).Nonempty
    · obtain ⟨x, hx, hxopen⟩ := h.opened o ho
      exact ⟨x, subset_addPeriod hx, hxopen⟩
    · obtain ⟨x, hx⟩ := hne
      rw [periodSet_addPeriod] at hx ⊢
      split_ifs at hx ⊢ with horg
      · subst horg
        exact ⟨_, .inl rfl, hopen.resolve_right ho⟩
      · exact absurd ⟨x, hx⟩ ho
  anchored b hb := by
    obtain ⟨x, hx, hstart⟩ := h.anchored b hb
    exact ⟨x, subset_addPeriod hx, hstart⟩

/-! ### The open period -/

/-- The open period is read, or created as the first of its organisation. -/
theorem Anchored.getCurrentPeriod (h : db.Anchored)
    (hget : getCurrentPeriod db org today = .ok (db', cur)) :
    db'.Anchored ∧ cur ∈ db'.periodSet org ∧ cur.endDate = none ∧ db'.toBooks = db.toBooks ∧
      db'.organizations = db.organizations := by
  unfold Pfv.getCurrentPeriod at hget
  split at hget
  · next p l hopen =>
    rw [pure_eq_ok, Prod.mk.injEq] at hget
    obtain ⟨rfl, rfl⟩ := hget
    have hp : p ∈ openPeriods db org := by
      rw [hopen]
      exact List.mem_cons_self
    exact ⟨h, (mem_openPeriods.mp hp).1, (mem_openPeriods.mp hp).2, rfl, rfl⟩
  · next hnone =>
    simp only [bind_eq_ok, pure_eq_ok] at hget
    obtain ⟨start, -, hcreate⟩ := hget
    have hempty : ∀ p, p ∉ db.periodSet org := by
      intro p hp
      obtain ⟨q, hq, hqopen⟩ := h.opened org ⟨p, hp⟩
      have hmem : q ∈ openPeriods db org := mem_openPeriods.mpr ⟨hq, hqopen⟩
      rw [hnone] at hmem
      simp at hmem
    have hfree : periodAt? db org start = none :=
      periodAt?_eq_none.mpr fun p hp => absurd hp (hempty p)
    simp only [createCurrentPeriod, hfree, Prod.mk.injEq] at hcreate
    obtain ⟨rfl, rfl⟩ := hcreate
    refine ⟨h.addPeriod (p := { orgId := org, startDate := start }) hfree (.inl rfl), ?_, rfl,
      rfl, rfl⟩
    rw [periodSet_addPeriod, if_pos rfl]
    exact .inl rfl

/-- An organisation with periods has an open one. -/
theorem Anchored.exists_open (h : db.Anchored) (hp : p ∈ db.periodSet org) :
    ∃ cur l, openPeriods db org = cur :: l := by
  obtain ⟨q, hq, hqopen⟩ := h.opened org ⟨p, hp⟩
  have hmem : q ∈ openPeriods db org := mem_openPeriods.mpr ⟨hq, hqopen⟩
  exact List.exists_cons_of_ne_nil (List.ne_nil_of_mem hmem)

/-- With an open period, an operation that only answers works on the latest one and creates
nothing. -/
theorem withCurrentPeriod_pure {α : Type} {l : List BillingPeriod}
    (hopen : openPeriods db org = cur :: l) (today : Date) (g : Planning → BillingPeriod → α) :
    Pfv.withCurrentPeriod db org today (fun db cur => pure (db, g db cur)) =
      (db, .ok (g db cur)) := by
  unfold Pfv.withCurrentPeriod Pfv.getCurrentPeriod
  rw [hopen]
  rfl

/-- What an operation on the open period keeps. -/
theorem Anchored.withCurrentPeriod {α : Type} (h : db.Anchored)
    {f : Planning → BillingPeriod → Except ServiceError (Planning × α)}
    (hf : ∀ db' cur db'' a, db'.Anchored → cur ∈ db'.periodSet org → cur.endDate = none →
      f db' cur = .ok (db'', a) → db''.Anchored) :
    (withCurrentPeriod db org today f).1.Anchored := by
  unfold Pfv.withCurrentPeriod
  split
  · exact h
  · next db' cur hget =>
    obtain ⟨h', hmem, hopen, -⟩ := h.getCurrentPeriod hget
    split
    · exact h'
    · next db'' a hok => exact hf db' cur db'' a h' hmem hopen hok

/-- A resolved period is one of its organisation. -/
theorem Anchored.resolvePeriod (h : db.Anchored) {start : Option Date}
    (hresolve : resolvePeriod db org today start = .ok (db', cur)) :
    db'.Anchored ∧ cur ∈ db'.periodSet org := by
  cases start with
  | none =>
    obtain ⟨h', hmem, -⟩ := h.getCurrentPeriod hresolve
    exact ⟨h', hmem⟩
  | some start =>
    simp only [Pfv.resolvePeriod, bind_eq_ok, orRaise_eq_ok, pure_eq_ok, Prod.mk.injEq] at hresolve
    obtain ⟨p, hp, rfl, rfl⟩ := hresolve
    exact ⟨h, (periodAt?_eq_some hp).1⟩

/-! ### Requests about periods -/

theorem Anchored.ensureStub (h : db.Anchored) (hne : (db.periodSet org).Nonempty) {cycleDay i : ℕ}
    {base : Date} {l : List BillingPeriod} :
    (ensureStub org cycleDay base (db, l) i).1.Anchored ∧
      ((ensureStub org cycleDay base (db, l) i).1.periodSet org).Nonempty := by
  unfold Pfv.ensureStub
  split
  · exact ⟨h, hne⟩
  · next hfree => exact ⟨h.addPeriod hfree (.inr hne), hne.mono subset_addPeriod⟩

theorem Anchored.ensureStubs (h : db.Anchored) (hne : (db.periodSet org).Nonempty) {cycleDay : ℕ}
    {base : Date} (months : List ℕ) (l : List BillingPeriod) :
    (months.foldl (Pfv.ensureStub org cycleDay base) (db, l)).1.Anchored := by
  induction months generalizing db l with
  | nil => exact h
  | cons i months ih =>
    obtain ⟨h', hne'⟩ := @Anchored.ensureStub _ _ h hne cycleDay i base l
    exact ih h' hne' _

/-- Closing the open period opens another one and moves no start. -/
theorem Anchored.closeCurrent (h : db.Anchored) (hcur : cur ∈ db.periodSet org) {c : Date}
    (hclose : closeCurrent org c db cur = .ok (db', p)) : db'.Anchored := by
  unfold Pfv.closeCurrent at hclose
  rw [raiseIf_bind_eq_ok] at hclose
  obtain ⟨-, hclose⟩ := hclose
  have hstarts : ∀ o, Set.InjOn BillingPeriod.startDate
      ((putPeriod db { cur with endDate := some c }).periodSet o) := fun o =>
    injOn_putPeriod (h.starts o) hcur rfl hcur.2 fun x hx hne hstart =>
      hne (h.starts org hx hcur hstart)
  have hkeep : ∀ {o x}, x ∈ db.periodSet o →
      ∃ y ∈ (putPeriod db { cur with endDate := some c }).periodSet o, y.startDate = x.startDate :=
    fun hx => exists_start_putPeriod (p := { cur with endDate := some c }) hcur rfl hcur.2 rfl hx
  have hother : ∀ {o}, o ≠ org →
      (putPeriod db { cur with endDate := some c }).periodSet o = db.periodSet o := fun ho =>
    periodSet_putPeriod_of_ne _ hcur rfl hcur.2 ho
  dsimp only at hclose
  split at hclose
  · next existing hexisting =>
    rw [pure_eq_ok, Prod.mk.injEq] at hclose
    obtain ⟨rfl, rfl⟩ := hclose
    obtain ⟨hmem, -⟩ := periodAt?_eq_some hexisting
    refine ⟨h.ledger, fun o => ?_, fun o hne => ?_, fun b hb => ?_⟩
    · exact injOn_putPeriod (hstarts o) hmem rfl hmem.2 fun x hx hxne hstart =>
        hxne (hstarts org hx hmem hstart)
    · by_cases ho : o = org
      · subst ho
        exact ⟨_, self_mem_putPeriod hmem rfl hmem.2, rfl⟩
      · rw [periodSet_putPeriod_of_ne { existing with endDate := none } hmem rfl hmem.2 ho,
          hother ho] at hne ⊢
        exact h.opened o hne
    · obtain ⟨x, hx, hstart⟩ := h.anchored b hb
      obtain ⟨y, hy, hystart⟩ := hkeep hx
      obtain ⟨z, hz, hzstart⟩ := exists_start_putPeriod hmem rfl hmem.2
        (p := { existing with endDate := none }) rfl hy
      exact ⟨z, hz, hzstart.trans (hystart.trans hstart)⟩
  · next hfree =>
    rw [pure_eq_ok, Prod.mk.injEq] at hclose
    obtain ⟨rfl, rfl⟩ := hclose
    refine ⟨h.ledger, fun o => injOn_addPeriod (hstarts o) hfree, fun o hne => ?_, fun b hb => ?_⟩
    · by_cases ho : o = org
      · subst ho
        rw [periodSet_addPeriod, if_pos rfl]
        exact ⟨_, .inl rfl, rfl⟩
      · rw [periodSet_addPeriod, if_neg fun h => ho h.symm, hother ho] at hne ⊢
        exact h.opened o hne
    · obtain ⟨x, hx, hstart⟩ := h.anchored b hb
      obtain ⟨y, hy, hystart⟩ := hkeep hx
      exact ⟨y, subset_addPeriod hy, hystart.trans hstart⟩

/-- Moving the start of the open period moves its budgets along. -/
theorem Anchored.recalculatePeriod (h : db.Anchored) (hcur : cur ∈ db.periodSet org) {newDay : ℕ}
    (hmove : recalculatePeriod org today newDay db cur = .ok db') : db'.Anchored := by
  unfold Pfv.recalculatePeriod at hmove
  split_ifs at hmove with hopen
  · simp only [movePeriod, ↓raiseIf_bind_eq_ok, bind_eq_ok, pure_eq_ok] at hmove
    obtain ⟨new, -, moved, ⟨hfree, rfl⟩, hrest⟩ := hmove
    have hother : ∀ x ∈ db.periodSet org, x ≠ cur → x.startDate ≠ new := by
      intro x hx hne hstart
      refine hfree ⟨x, hx.1, fun hid => hne ?_, hx.2.trans hcur.2.symm, hstart⟩
      exact Table.get?_inj (Table.get?_of_mem hx.1) (Table.get?_of_mem hcur.1) hid
    have hstarts : ∀ o, Set.InjOn BillingPeriod.startDate
        ((putPeriod db { cur with startDate := new }).periodSet o) := fun o =>
      injOn_putPeriod (h.starts o) hcur rfl hcur.2 hother
    have hopened : ∀ o, ((putPeriod db { cur with startDate := new }).periodSet o).Nonempty →
        ∃ p ∈ (putPeriod db { cur with startDate := new }).periodSet o, p.endDate = none := by
      intro o hne
      by_cases ho : o = org
      · subst ho
        exact ⟨_, self_mem_putPeriod hcur rfl hcur.2, hopen⟩
      · rw [periodSet_putPeriod_of_ne { cur with startDate := new } hcur rfl hcur.2 ho] at hne ⊢
        exact h.opened o hne
    split_ifs at hrest with hsame
    · simp only [moveBudgets, raiseIf_bind_eq_ok, pure_eq_ok] at hrest
      obtain ⟨-, rfl⟩ := hrest
      refine ⟨h.ledger, hstarts, hopened, fun c hc => ?_⟩
      obtain ⟨b, hb, rfl⟩ := List.mem_map.mp hc
      unfold Budget.moveStart
      split_ifs with hmoved
      · refine ⟨{ cur with startDate := new }, ?_, rfl⟩
        rw [show ({ b with periodStart := new } : Budget).orgId = org from hmoved.1]
        exact self_mem_putPeriod (p := { cur with startDate := new }) hcur rfl hcur.2
      · obtain ⟨x, hx, hstart⟩ := h.anchored b hb
        refine ⟨x, mem_putPeriod (p := { cur with startDate := new }) hcur rfl hcur.2 hx ?_, hstart⟩
        rintro rfl
        exact hmoved ⟨hx.2.symm.trans hcur.2, hstart.symm⟩
    · rw [pure_eq_ok] at hrest
      subst hrest
      rw [not_ne_iff] at hsame
      refine ⟨h.ledger, hstarts, hopened, fun b hb => ?_⟩
      obtain ⟨x, hx, hstart⟩ := h.anchored b hb
      obtain ⟨y, hy, hystart⟩ := exists_start_putPeriod hcur rfl hcur.2
        (p := { cur with startDate := new }) hsame.symm hx
      exact ⟨y, hy, hystart.trans hstart⟩
  · rw [pure_eq_ok] at hmove
    exact hmove ▸ h

theorem Anchored.updateBillingCycle (h : db.Anchored) (body : BillingCycleUpdate) :
    (updateBillingCycle db org today body).1.Anchored := by
  have hstaged : (setCycleDay db org body.billingCycleDay).Anchored :=
    ⟨h.ledger, h.starts, h.opened, h.anchored⟩
  unfold Pfv.updateBillingCycle
  split
  · exact h
  · dsimp only
    split
    · exact h
    · split
      · exact h
      · next read cur hget =>
        obtain ⟨hread, hcur, -⟩ := hstaged.getCurrentPeriod hget
        split
        · split_ifs
          · exact hread
          · exact h
        · next db' hmove => exact hread.recalculatePeriod hcur hmove

theorem Anchored.servePeriod (h : db.Anchored) (r : PeriodRequest) : (r.serve db).1.Anchored := by
  cases r with
  | current org today =>
    show (Pfv.withCurrentPeriod db org today fun db _ => pure (db, ())).1.Anchored
    refine h.withCurrentPeriod fun db' cur db'' a h' _ _ hf => ?_
    rw [pure_eq_ok, Prod.mk.injEq] at hf
    exact hf.1 ▸ h'
  | ensureFuture org today count =>
    show (ensureFuturePeriods db org today count).1.Anchored
    unfold ensureFuturePeriods
    refine h.withCurrentPeriod fun db' cur db'' a h' hcur _ hf => ?_
    have hstubs : (((List.range count).map (· + 1)).foldl
        (Pfv.ensureStub org (cycleDayOf db' org) cur.startDate) (db', [])).1.Anchored :=
      h'.ensureStubs ⟨cur, hcur⟩ _ _
    rwa [pure_eq_ok.mp hf] at hstubs
  | close org today closeDate =>
    exact h.withCurrentPeriod fun db' cur db'' a h' hcur _ hf => h'.closeCurrent hcur hf
  | updateCycle org today body => exact h.updateBillingCycle body

/-! ### Requests about budgets -/

theorem Anchored.addBudget (h : db.Anchored) {b : Budget} (hp : p ∈ db.periodSet b.orgId)
    (hstart : p.startDate = b.periodStart) : (addBudget db b).Anchored where
  ledger := h.ledger
  starts := h.starts
  opened := h.opened
  anchored c hc := by
    rcases Table.mem_insert.mp hc with hc | rfl
    · exact h.anchored c hc
    · exact ⟨p, hp, hstart⟩

/-- A budget with another amount keeps its period. -/
theorem Anchored.setAmount (h : db.Anchored) {b : Budget} (hb : b ∈ db.budgets.rows) (x : ℤ) :
    (putBudget db { b with amount := x }).Anchored where
  ledger := h.ledger
  starts := h.starts
  opened := h.opened
  anchored c hc := by
    rcases (Table.mem_put (a := { b with amount := x }) hb rfl).mp hc with rfl | ⟨hc, -⟩
    · exact h.anchored b hb
    · exact h.anchored c hc

end Planning

theorem budget?_eq_some {db : Planning} {id org : ℕ} {b : Budget} :
    budget? db id org = some b ↔ db.budgets.get? id = some b ∧ b.orgId = org := by
  simp [budget?, Option.filter_eq_some_iff]

theorem budgetFor?_eq_some {db : Planning} {org categoryId : ℕ} {start : Date} {b : Budget}
    (h : budgetFor? db org categoryId start = some b) :
    b ∈ db.budgets.rows ∧ b.orgId = org ∧ b.categoryId = categoryId ∧ b.periodStart = start := by
  have hb := List.find?_some h
  rw [decide_eq_true_eq] at hb
  exact ⟨List.mem_of_find?_eq_some h, hb⟩

namespace Planning

variable {db db' : Planning} {org o : ℕ} {p q cur : BillingPeriod} {today : Date}

/-- The target of a transfer is the budget of the category, with more, or a new one. -/
theorem transferTarget_cases (db : Planning) (org : ℕ) (source : Budget) (body : BudgetTransfer) :
    (∃ t, budgetFor? db org body.toCategoryId source.periodStart = some t ∧
      transferTarget db org source body =
        (Pfv.putBudget db { t with amount := round ((t.amount : ℚ) + body.amount) },
          { t with amount := round ((t.amount : ℚ) + body.amount) },
          (t.amount : ℚ) + body.amount)) ∨
    budgetFor? db org body.toCategoryId source.periodStart = none ∧
      transferTarget db org source body =
        (Pfv.addBudget db ⟨db.budgets.next, org, body.toCategoryId, round body.amount,
            source.periodStart, source.periodEnd⟩,
          ⟨db.budgets.next, org, body.toCategoryId, round body.amount, source.periodStart,
            source.periodEnd⟩, body.amount) := by
  unfold transferTarget
  cases hfor : budgetFor? db org body.toCategoryId source.periodStart with
  | some t => exact .inl ⟨t, rfl, rfl⟩
  | none => exact .inr ⟨rfl, rfl⟩

theorem Anchored.applyTransfer (h : db.Anchored) {source : Budget} {body : BudgetTransfer}
    (hsource : source ∈ db.budgets.rows) (horg : source.orgId = org) :
    (applyTransfer db org source body).1.Anchored := by
  show (Pfv.putBudget (transferTarget db org source body).1
    { source with amount := round ((source.amount : ℚ) - body.amount) }).Anchored
  rcases transferTarget_cases db org source body with ⟨t, hfor, htarget⟩ | ⟨-, htarget⟩
  · obtain ⟨hmem, -⟩ := budgetFor?_eq_some hfor
    have ht := h.setAmount hmem (round ((t.amount : ℚ) + body.amount))
    have hput : ∀ {b : Budget}, b ∈ (Pfv.putBudget db
        { t with amount := round ((t.amount : ℚ) + body.amount) }).budgets.rows ↔
        b = { t with amount := round ((t.amount : ℚ) + body.amount) } ∨
          b ∈ db.budgets.rows ∧ b.id ≠ t.id := Table.mem_put hmem rfl
    rw [htarget]
    by_cases hid : source.id = t.id
    · obtain rfl : source = t :=
        Table.get?_inj (Table.get?_of_mem hsource) (Table.get?_of_mem hmem) hid
      exact ht.setAmount (hput.mpr (.inl rfl)) _
    · exact ht.setAmount (hput.mpr (.inr ⟨hsource, hid⟩)) _
  · obtain ⟨p, hp, hstart⟩ := h.anchored source hsource
    rw [horg] at hp
    rw [htarget]
    exact (h.addBudget (b := ⟨db.budgets.next, org, body.toCategoryId, round body.amount,
      source.periodStart, source.periodEnd⟩) hp hstart).setAmount
      (Table.mem_insert.mpr (.inl hsource)) _

theorem Anchored.insertFromItems (h : db.Anchored) (hp : p ∈ db.periodSet org)
    (items : List ForecastPlanItem) : (items.foldl (insertFromItem org p) db).Anchored := by
  induction items generalizing db with
  | nil => exact h
  | cons i items ih =>
    rw [List.foldl_cons]
    unfold insertFromItem
    split_ifs
    · exact ih h hp
    · exact ih (h.addBudget
        (b := ⟨0, org, i.categoryId, i.plannedAmount, p.startDate, p.endDate⟩) hp rfl) hp

end Planning

/-- A request about budgets. -/
inductive BudgetRequest
  | list (org : ℕ) (today : Date) (periodStart : Option Date)
  | create (org : ℕ) (today : Date) (body : BudgetCreate) (periodStart : Option Date)
  | update (org : ℕ) (today : Date) (budgetId : ℕ) (body : BudgetUpdate)
  | transfer (org : ℕ) (today : Date) (body : BudgetTransfer)
  | delete (org budgetId : ℕ)
  | fromForecast (org : ℕ) (today : Date)

/-- The database a request leaves. -/
def BudgetRequest.serve (db : Planning) : BudgetRequest → Planning
  | list org today periodStart => (listBudgets db org today periodStart).1
  | create org today body periodStart => (createBudget db org today body periodStart).1
  | update org today budgetId body => (updateBudget db org today budgetId body).1
  | transfer org today body => (transferBudget db org today body).1
  | delete org budgetId => (deleteBudget db org budgetId).1
  | fromForecast org today => (createBudgetsFromForecast db org today).1

theorem BudgetRequest.serve_anchored {db : Planning} (h : db.Anchored) (r : BudgetRequest) :
    (r.serve db).Anchored := by
  cases r with
  | list org today periodStart =>
    show (listBudgets db org today periodStart).1.Anchored
    unfold listBudgets
    split
    · exact h
    · exact h
    · next hresolve => exact (h.resolvePeriod hresolve).1
  | create org today body periodStart =>
    show (createBudget db org today body periodStart).1.Anchored
    unfold createBudget
    split
    · exact h
    · split
      · exact h
      · next db' period hresolve =>
        obtain ⟨h', hp⟩ := h.resolvePeriod hresolve
        split
        · exact h'
        · next db'' response hcreate =>
          simp only [createBudgetIn, raiseIf_bind_eq_ok, pure_eq_ok, Prod.mk.injEq] at hcreate
          obtain ⟨-, rfl, -⟩ := hcreate
          exact h'.addBudget hp rfl
  | update org today budgetId body =>
    show (updateBudget db org today budgetId body).1.Anchored
    unfold updateBudget
    split
    · exact h
    · next b hb =>
      have hmem := Table.get?_mem (budget?_eq_some.mp hb).1
      refine (h.setAmount hmem _).withCurrentPeriod fun db' cur db'' a h' _ _ hf => ?_
      rw [pure_eq_ok, Prod.mk.injEq] at hf
      exact hf.1 ▸ h'
  | transfer org today body =>
    show (transferBudget db org today body).1.Anchored
    unfold transferBudget
    split
    · exact h
    · next source hsource =>
      obtain ⟨hget, horg⟩ := budget?_eq_some.mp hsource
      split
      · exact h
      · refine (h.applyTransfer (Table.get?_mem hget) horg).withCurrentPeriod
          fun db' cur db'' a h' _ _ hf => ?_
        rw [pure_eq_ok, Prod.mk.injEq] at hf
        exact hf.1 ▸ h'
  | delete org budgetId =>
    show (deleteBudget db org budgetId).1.Anchored
    unfold deleteBudget
    split
    · exact h
    · exact ⟨h.ledger, h.starts, h.opened, fun b hb => h.anchored b (List.mem_of_mem_filter hb)⟩
  | fromForecast org today =>
    exact h.withCurrentPeriod fun db' cur db'' a h' hcur _ hf => by
      simp only [bind_eq_ok, orRaise_eq_ok, pure_eq_ok, Prod.mk.injEq] at hf
      obtain ⟨plan, -, rfl, -⟩ := hf
      exact h'.insertFromItems hcur _

/-! ### Runs -/

/-- A request about transactions, billing periods or budgets. -/
inductive PlanningRequest
  | ledger (r : Request)
  | period (r : PeriodRequest)
  | budget (r : BudgetRequest)

/-- The database after a request. The requests about periods and budgets commit on their own; one
about transactions commits when it succeeds. -/
def PlanningRequest.step (db : Planning) : PlanningRequest → Except ServiceError Planning
  | ledger r => (Request.step db.toDb r).map fun d => { db with toDb := d }
  | period r => .ok (r.serve db).1
  | budget r => .ok (r.serve db)

/-- A database before the first account, the first period and the first budget. -/
structure Planning.Fresh (db : Planning) : Prop where
  ledger : db.Seeded
  budgets : db.budgets.rows = []
  periods : db.billingPeriods.rows = []

theorem Planning.Fresh.anchored {db : Planning} (h : db.Fresh) : db.Anchored := by
  have hempty : ∀ o p, p ∉ db.periodSet o := fun o p hp => by
    have hrows := hp.1
    rw [h.periods] at hrows
    simp at hrows
  refine ⟨h.ledger.wellFormed, fun o p hp => absurd hp (hempty o p),
    fun o ⟨p, hp⟩ => absurd hp (hempty o p), fun b hb => ?_⟩
  rw [h.budgets] at hb
  simp at hb

theorem PlanningRequest.step_anchored {db db' : Planning} (h : db.Anchored) {r : PlanningRequest}
    (hstep : r.step db = .ok db') : db'.Anchored := by
  cases r with
  | ledger r =>
    obtain ⟨d, hd, rfl⟩ := map_eq_ok.mp hstep
    exact ⟨Request.step_wellFormed h.ledger hd, h.starts, h.opened, h.anchored⟩
  | period r => exact Except.ok.inj hstep ▸ h.servePeriod r
  | budget r => exact Except.ok.inj hstep ▸ r.serve_anchored h

/-- In every run budgets stay with their periods. -/
theorem anchored_of_run {db : Planning} (h : db.Fresh) (rs : List PlanningRequest) :
    (serveAll (fun db r => PlanningRequest.step db r) db rs).Anchored :=
  @serveAll_invariant _ _ _ _ (fun _ _ => True) _
    (fun _ _ _ hs _ hstep => PlanningRequest.step_anchored hs hstep) rs _ h.anchored
    (admits_of_forall (fun _ _ h => h) rs db fun _ _ => trivial)

end Pfv
