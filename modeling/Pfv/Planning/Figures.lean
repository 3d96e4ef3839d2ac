import Pfv.Base.Tally
import Pfv.Planning.Anchors

/-!
# The figures of a budget

What `updateBudget` and `transferBudget` answer for a budget against what `listBudgets` shows for
it. `listBudgets` counts up to the end its period has; the other two count up to the copy of the end
that was stored on the budget, unless the period is the open one. The copy is made when the budget
is created and no later close, stub or change of the cycle touches it.

## Main definitions

* `Planning.ListsAs`: the list of a period shows the figures of a response.
* `Planning.EndAgrees`: no spending lies between the copy of an end and the end.
* `Planning.UpdateAgrees`, `Planning.TransferAgrees`: when the figures of the two requests agree.

## Main results

* `computeSpent_eq_iff`: when two ends give the same spending.
* `figures_of_run`: in every run, the figures agree exactly under these conditions.
-/

namespace Pfv

/-! ### Spending up to two ends -/

/-- Of two ends, one includes every row that the other does. -/
theorem settledWithin_total (start : Date) (e e' : Option Date) :
    (∀ t : Transaction, t.SettledWithin start e → t.SettledWithin start e') ∨
      ∀ t : Transaction, t.SettledWithin start e' → t.SettledWithin start e := by
  have hmono : ∀ {e e' : Option Date}, (∀ d' ∈ e', ∃ d ∈ e, d ≤ d') →
      ∀ t : Transaction, t.SettledWithin start e → t.SettledWithin start e' := by
    rintro e e' hle t ⟨d, hd, hstart, hend⟩
    refine ⟨d, hd, hstart, fun d' hd' => ?_⟩
    obtain ⟨m, hm, hmd'⟩ := hle d' hd'
    exact Date.le_iff.mpr ((Date.le_iff.mp (hend m hm)).trans (Date.le_iff.mp hmd'))
  rcases e with _ | a
  · exact .inr (hmono (by simp))
  · rcases e' with _ | b
    · exact .inl (hmono (by simp))
    · rcases Nat.le_total a.toOrdinal b.toOrdinal with h | h
      · exact .inl (hmono (by simpa [Date.le_iff] using h))
      · exact .inr (hmono (by simpa [Date.le_iff] using h))

/-- Two ends give the same spending when no expense other than zero is settled between them. -/
theorem computeSpent_eq_iff {books : Books} (hnonneg : ∀ t ∈ books.transactions.rows, 0 ≤ t.amount)
    (org categoryId : ℕ) (start : Date) (e e' : Option Date) :
    computeSpent books org categoryId start e = computeSpent books org categoryId start e' ↔
      ∀ t ∈ books.transactions.rows, t.SpendsOn books org categoryId → t.amount ≠ 0 →
        (t.SettledWithin start e ↔ t.SettledWithin start e') := by
  have hiff : ∀ {e e' : Option Date},
      (∀ t : Transaction, t.SettledWithin start e → t.SettledWithin start e') →
      (computeSpent books org categoryId start e = computeSpent books org categoryId start e' ↔
        ∀ t ∈ books.transactions.rows, t.SpendsOn books org categoryId → t.amount ≠ 0 →
          (t.SettledWithin start e ↔ t.SettledWithin start e')) := by
    intro e e' hle
    refine (sum_filter_eq_iff (fun t _ h => ⟨h.1, hle t h.2⟩) hnonneg).trans ?_
    refine forall₂_congr fun t _ => ⟨fun h hspends hne => ?_, fun h hne => ?_⟩
    · simpa only [hspends, true_and] using h hne
    · exact and_congr_right fun hspends => h hspends hne
  rcases settledWithin_total start e e' with h | h
  · exact hiff h
  · rw [eq_comm, hiff h]
    exact forall₄_congr fun _ _ _ _ => iff_comm

namespace Planning

/-! ### The list of a period -/

/-- The list of the period of a response shows its figures for its budget. -/
def ListsAs (db : Planning) (org : ℕ) (r : BudgetResponse) : Prop :=
  ∀ today, ∃ rs, (listBudgets db org today (some r.periodStart)).2 = .ok rs ∧
    ∃ l ∈ rs, l.id = r.id ∧ l.spent = r.spent ∧ l.remaining = r.remaining

variable {db db' : Planning} {org : ℕ} {p cur : BillingPeriod} {today : Date} {b : Budget}

/-- The list shows the figures of a response when it counts the same spending and the same
amount. -/
theorem listsAs_iff (hb : b ∈ db.budgets.rows) (horg : b.orgId = org)
    (hp : periodAt? db org b.periodStart = some p) (shown : Planning) (amount : ℚ) (spent : ℤ) :
    db.ListsAs org (toResponse shown b amount spent) ↔
      computeSpent db.toBooks org b.categoryId b.periodStart p.endDate = spent ∧
        (b.amount : ℚ) = amount := by
  obtain ⟨-, hstart⟩ := periodAt?_eq_some hp
  have hlist : ∀ today, (listBudgets db org today (some b.periodStart)).2 =
      .ok (budgetsOfPeriod db org p) := by
    intro today
    have hresolve : resolvePeriod db org today (some b.periodStart) = .ok (db, p) :=
      bind_of_ok (orRaise_eq_ok.mpr hp)
    unfold listBudgets
    rw [hresolve]
  have hmem : ∀ l, l ∈ budgetsOfPeriod db org p ∧ l.id = b.id ↔
      l = toResponse db b b.amount
        (computeSpent db.toBooks org b.categoryId b.periodStart p.endDate) := by
    intro l
    simp only [budgetsOfPeriod, List.mem_map, List.mem_insertionSort, List.mem_filter,
      decide_eq_true_eq, hstart]
    constructor
    · rintro ⟨⟨c, ⟨hc, -⟩, rfl⟩, hid⟩
      obtain rfl : c = b :=
        Table.get?_inj (Table.get?_of_mem hc) (Table.get?_of_mem hb) hid
      rfl
    · rintro rfl
      exact ⟨⟨b, ⟨hb, horg, rfl⟩, rfl⟩, rfl⟩
  have hshown : db.ListsAs org (toResponse shown b amount spent) ↔
      ∃ l, (l ∈ budgetsOfPeriod db org p ∧ l.id = b.id) ∧ l.spent = spent ∧
        l.remaining = amount - spent := by
    constructor
    · intro h
      obtain ⟨rs, hrs, l, hl, hid, hspent, hremaining⟩ := h b.periodStart
      obtain rfl := Except.ok.inj ((hlist _).symm.trans hrs)
      exact ⟨l, ⟨hl, hid⟩, hspent, hremaining⟩
    · rintro ⟨l, ⟨hl, hid⟩, hspent, hremaining⟩ today
      exact ⟨_, hlist today, l, hl, hid, hspent, hremaining⟩
  rw [hshown]
  simp only [hmem, exists_eq_left, toResponse]
  refine and_congr_right fun hspent => ?_
  rw [hspent, sub_left_inj]

/-! ### The end that is counted -/

/-- The period at a start is the open one, or no expense of a category other than zero is settled
between a copy of its end and its end. -/
def EndAgrees (db : Planning) (org categoryId : ℕ) (start : Date) (copy : Option Date) : Prop :=
  ∀ p, periodAt? db org start = some p → (openPeriods db org).head? = some p ∨
    ∀ t ∈ db.transactions.rows, t.SpendsOn db.toBooks org categoryId → t.amount ≠ 0 →
      (t.SettledWithin start copy ↔ t.SettledWithin start p.endDate)

/-- The end that is counted gives the spending of the period when the copy agrees with its end. -/
theorem Anchored.computeSpent_iff (h : db.Anchored) (hp : periodAt? db org b.periodStart = some p)
    {l : List BillingPeriod} (hopen : openPeriods db org = cur :: l) (categoryId : ℕ) :
    computeSpent db.toBooks org categoryId b.periodStart p.endDate =
        computeSpent db.toBooks org categoryId b.periodStart (countedEnd cur b) ↔
      db.EndAgrees org categoryId b.periodStart b.periodEnd := by
  have hnonneg : ∀ t ∈ db.transactions.rows, 0 ≤ t.amount := fun t ht =>
    (h.ledger.row (Table.get?_of_mem ht)).amount
  have hcur : cur ∈ db.periodSet org := by
    have hmem : cur ∈ openPeriods db org := by
      rw [hopen]
      exact List.mem_cons_self
    exact (mem_openPeriods.mp hmem).1
  obtain ⟨hmem, hstart⟩ := periodAt?_eq_some hp
  unfold EndAgrees countedEnd
  simp only [hp, Option.some.injEq, hopen, List.head?_cons, forall_eq']
  split_ifs with hsame
  · obtain rfl : cur = p := h.starts org hcur hmem (hsame.trans hstart.symm)
    exact iff_of_true rfl (.inl rfl)
  · have hne : cur ≠ p := fun heq => hsame (heq ▸ hstart)
    rw [or_iff_right hne, eq_comm]
    exact computeSpent_eq_iff hnonneg _ _ _ _ _

/-! ### The two requests -/

/-- When the figures of an update agree with the list: the new amount is in whole cents, and the
copy of the end agrees with the end. -/
def UpdateAgrees (db : Planning) (org budgetId : ℕ) (body : BudgetUpdate) : Prop :=
  ∀ b, budget? db budgetId org = some b →
    (round (body.amount.getD b.amount) : ℚ) = body.amount.getD b.amount ∧
      db.EndAgrees org b.categoryId b.periodStart b.periodEnd

/-- When the figures of a transfer agree with the list: its amount is in whole cents, and the copy
of the end on the source agrees with the end for both categories. -/
def TransferAgrees (db : Planning) (org : ℕ) (body : BudgetTransfer) : Prop :=
  ∀ source, budget? db body.fromBudgetId org = some source →
    (round body.amount : ℚ) = body.amount ∧
      db.EndAgrees org source.categoryId source.periodStart source.periodEnd ∧
      db.EndAgrees org body.toCategoryId source.periodStart source.periodEnd

theorem Anchored.exists_periodAt (h : db.Anchored) (hb : b ∈ db.budgets.rows)
    (horg : b.orgId = org) :
    ∃ p, periodAt? db org b.periodStart = some p := by
  obtain ⟨p, hp, hstart⟩ := h.anchored b hb
  rw [horg] at hp
  exact ⟨p, hstart ▸ h.periodAt?_eq hp⟩

/-- Writing budgets leaves the spending between a copy and an end as it is. -/
theorem endAgrees_congr (htransactions : db'.transactions = db.transactions)
    (hcategories : db'.categories = db.categories)
    (hperiods : db'.billingPeriods = db.billingPeriods) (categoryId : ℕ) (start : Date)
    (copy : Option Date) :
    db'.EndAgrees org categoryId start copy ↔ db.EndAgrees org categoryId start copy := by
  unfold EndAgrees periodAt? openPeriods Transaction.SpendsOn
  rw [htransactions, hcategories, hperiods]

/-- The figures of an update agree with the list exactly under its condition. -/
theorem Anchored.updateBudget_iff (h : db.Anchored) {budgetId : ℕ} {body : BudgetUpdate}
    {r : BudgetResponse} (hupdate : updateBudget db org today budgetId body = (db', .ok r)) :
    db'.ListsAs org r ↔ db.UpdateAgrees org budgetId body := by
  unfold updateBudget at hupdate
  split at hupdate
  · cases hupdate
  · next b hb =>
    obtain ⟨hget, horg⟩ := budget?_eq_some.mp hb
    have hmem := Table.get?_mem hget
    obtain ⟨p, hp⟩ := h.exists_periodAt hmem horg
    obtain ⟨cur, l, hopen⟩ := h.exists_open (periodAt?_eq_some hp).1
    rw [UpdateAgrees, hb]
    simp only [Option.some.injEq, forall_eq']
    generalize body.amount.getD (b.amount : ℚ) = x at hupdate ⊢
    let b' : Budget := { b with amount := round x }
    have hput : (putBudget db b').Anchored := h.setAmount hmem _
    have hopen' : openPeriods (putBudget db b') org = cur :: l := hopen
    rw [withCurrentPeriod_pure hopen' today] at hupdate
    obtain ⟨rfl, rfl⟩ : putBudget db b' = db' ∧ _ = r := by simpa using hupdate
    have hmem' : b' ∈ (putBudget db b').budgets.rows := 
      (Table.mem_put (a := b') hmem rfl).mpr (.inl rfl)
    rw [listsAs_iff hmem' horg hp, hput.computeSpent_iff (b := b') hp hopen', and_comm]
    exact and_congr_right fun _ => endAgrees_congr rfl rfl rfl _ _ _

/-- An amount is in whole cents when rounding leaves it alone. -/
theorem round_eq_self_iff {x : ℚ} : (round x : ℚ) = x ↔ ∃ n : ℤ, (n : ℚ) = x := by
  constructor
  · exact fun h => ⟨round x, h⟩
  · rintro ⟨n, rfl⟩
    rw [round_intCast]

theorem round_add_eq_self_iff (n : ℤ) {x : ℚ} :
    (round ((n : ℚ) + x) : ℚ) = n + x ↔ (round x : ℚ) = x := by
  rw [round_eq_self_iff, round_eq_self_iff]
  constructor
  · rintro ⟨m, hm⟩
    exact ⟨m - n, by rw [Int.cast_sub, hm, add_sub_cancel_left]⟩
  · rintro ⟨m, hm⟩
    exact ⟨n + m, by rw [Int.cast_add, hm]⟩

theorem round_sub_eq_self_iff (n : ℤ) {x : ℚ} :
    (round ((n : ℚ) - x) : ℚ) = n - x ↔ (round x : ℚ) = x := by
  rw [round_eq_self_iff, round_eq_self_iff]
  constructor
  · rintro ⟨m, hm⟩
    exact ⟨n - m, by rw [Int.cast_sub, hm, sub_sub_cancel]⟩
  · rintro ⟨m, hm⟩
    exact ⟨n - m, by rw [Int.cast_sub, hm]⟩

/-- What a transfer writes: the source with less, and a budget of the target category in the period
of the source. -/
structure TransferWrites (db db' : Planning) (org : ℕ) (source : Budget) (body : BudgetTransfer)
    (target : Budget) (amount : ℚ) : Prop where
  transactions : db'.transactions = db.transactions
  categories : db'.categories = db.categories
  periods : db'.billingPeriods = db.billingPeriods
  source_mem : { source with amount := round ((source.amount : ℚ) - body.amount) } ∈
    db'.budgets.rows
  target_mem : target ∈ db'.budgets.rows
  orgId_eq : target.orgId = org
  categoryId_eq : target.categoryId = body.toCategoryId
  periodStart_eq : target.periodStart = source.periodStart
  amount_iff : (target.amount : ℚ) = amount ↔ (round body.amount : ℚ) = body.amount

theorem applyTransfer_writes {source : Budget} {body : BudgetTransfer}
    (hsource : source ∈ db.budgets.rows) (hcheck : checkTransfer db org source body = .ok ()) :
    ∃ target amount, (applyTransfer db org source body).2 =
        (({ source with amount := round ((source.amount : ℚ) - body.amount) },
          (source.amount : ℚ) - body.amount), (target, amount)) ∧
      TransferWrites db (applyTransfer db org source body).1 org source body target amount := by
  have hne : body.toCategoryId ≠ source.categoryId := by
    simp only [checkTransfer, bind_eq_ok, orRaise_eq_ok, raiseIf_eq_ok] at hcheck
    obtain ⟨_, -, cat, hcat, _, -, hne⟩ := hcheck
    rwa [show cat.id = body.toCategoryId from
      Table.get?_id (Option.filter_eq_some_iff.mp hcat).1] at hne
  let source' : Budget := { source with amount := round ((source.amount : ℚ) - body.amount) }
  have happly : applyTransfer db org source body =
      (putBudget (transferTarget db org source body).1 source',
        (source', (source.amount : ℚ) - body.amount), (transferTarget db org source body).2) := rfl
  rw [happly]
  rcases transferTarget_cases db org source body with ⟨t, hfor, htarget⟩ | ⟨hnone, htarget⟩
  · obtain ⟨hmem, horg, hcat, hstart⟩ := budgetFor?_eq_some hfor
    let t' : Budget := { t with amount := round ((t.amount : ℚ) + body.amount) }
    have hid : source.id ≠ t.id := by
      intro hid
      obtain rfl : source = t :=
        Table.get?_inj (Table.get?_of_mem hsource) (Table.get?_of_mem hmem) hid
      exact hne hcat.symm
    have hput : ∀ {b : Budget}, b ∈ (putBudget db t').budgets.rows ↔
        b = t' ∨ b ∈ db.budgets.rows ∧ b.id ≠ t.id := Table.mem_put hmem rfl
    have hput' : ∀ {b : Budget}, b ∈ (putBudget (putBudget db t') source').budgets.rows ↔
        b = source' ∨ b ∈ (putBudget db t').budgets.rows ∧ b.id ≠ source.id :=
      Table.mem_put (hput.mpr (.inr ⟨hsource, hid⟩)) rfl
    rw [htarget]
    exact ⟨t', _, rfl, rfl, rfl, rfl, hput'.mpr (.inl rfl),
      hput'.mpr (.inr ⟨hput.mpr (.inl rfl), hid.symm⟩), horg, hcat, hstart,
      round_add_eq_self_iff t.amount⟩
  · let t : Budget := ⟨db.budgets.next, org, body.toCategoryId, round body.amount,
      source.periodStart, source.periodEnd⟩
    have hput : ∀ {b : Budget}, b ∈ (putBudget (addBudget db t) source').budgets.rows ↔
        b = source' ∨ b ∈ (addBudget db t).budgets.rows ∧ b.id ≠ source.id :=
      Table.mem_put (Table.mem_insert.mpr (.inl hsource)) rfl
    rw [htarget]
    refine ⟨t, _, rfl, rfl, rfl, rfl, hput.mpr (.inl rfl), hput.mpr (.inr ⟨?_, ?_⟩), rfl, rfl, rfl,
      Iff.rfl⟩
    · exact Table.mem_insert.mpr (.inr rfl)
    · exact (Table.get?_lt (Table.get?_of_mem hsource)).ne'

/-- The figures of a transfer agree with the list exactly under its condition. -/
theorem Anchored.transferBudget_iff (h : db.Anchored) {body : BudgetTransfer}
    {rs : List BudgetResponse} (htransfer : transferBudget db org today body = (db', .ok rs)) :
    (∀ r ∈ rs, db'.ListsAs org r) ↔ db.TransferAgrees org body := by
  unfold transferBudget at htransfer
  split at htransfer
  · cases htransfer
  · next source hsource =>
    split at htransfer
    · cases htransfer
    · next hcheck =>
      obtain ⟨hget, horg⟩ := budget?_eq_some.mp hsource
      have hmem := Table.get?_mem hget
      obtain ⟨p, hp⟩ := h.exists_periodAt hmem horg
      obtain ⟨cur, l, hopen⟩ := h.exists_open (periodAt?_eq_some hp).1
      rw [TransferAgrees, hsource]
      simp only [Option.some.injEq, forall_eq']
      obtain ⟨target, amount, hresult, hwrites⟩ := applyTransfer_writes hmem hcheck
      have hput : (Pfv.applyTransfer db org source body).1.Anchored := h.applyTransfer hmem horg
      rcases happly : Pfv.applyTransfer db org source body with ⟨db₁, written⟩
      rw [happly] at htransfer hresult hwrites hput
      dsimp only at hresult hwrites hput
      subst hresult
      have hopen₁ : openPeriods db₁ org = cur :: l := by
        unfold openPeriods
        rw [hwrites.periods]
        exact hopen
      have hp₁ : periodAt? db₁ org source.periodStart = some p := by
        unfold periodAt?
        rw [hwrites.periods]
        exact hp
      dsimp only at htransfer
      rw [withCurrentPeriod_pure hopen₁ today] at htransfer
      obtain ⟨rfl, hrs⟩ := Prod.mk.inj htransfer
      obtain rfl := Except.ok.inj hrs
      let source' : Budget := { source with amount := round ((source.amount : ℚ) - body.amount) }
      have hspent := fun categoryId =>
        (hput.computeSpent_iff (b := source') hp₁ hopen₁ categoryId).trans
          (endAgrees_congr hwrites.transactions hwrites.categories hwrites.periods categoryId _ _)
      rw [List.forall_mem_cons, List.forall_mem_singleton,
        listsAs_iff (b := source') hwrites.source_mem horg hp₁,
        listsAs_iff hwrites.target_mem hwrites.orgId_eq (hwrites.periodStart_eq ▸ hp₁),
        hwrites.periodStart_eq, hwrites.categoryId_eq, hwrites.amount_iff,
        show ((source'.amount : ℚ) = source.amount - body.amount ↔ _) from
          round_sub_eq_self_iff source.amount, hspent source.categoryId, hspent body.toCategoryId]
      tauto

end Planning

/-! ### Runs -/

/-- In every state that requests about transactions, periods and budgets lead to, the figures of an
update and of a transfer are those of the list exactly under their conditions. -/
theorem figures_of_run {db : Planning} (h : db.Fresh) (rs : List PlanningRequest) :
    let now := serveAll PlanningRequest.step db rs
    (∀ org today budgetId body now' r,
      updateBudget now org today budgetId body = (now', .ok r) →
        (now'.ListsAs org r ↔ now.UpdateAgrees org budgetId body)) ∧
    ∀ org today body now' responses,
      transferBudget now org today body = (now', .ok responses) →
        ((∀ r ∈ responses, now'.ListsAs org r) ↔ now.TransferAgrees org body) :=
  have hrun := anchored_of_run h rs
  ⟨fun _ _ _ _ _ _ hupdate => hrun.updateBudget_iff hupdate,
    fun _ _ _ _ _ htransfer => hrun.transferBudget_iff htransfer⟩

/-! ### Sample budgets -/

/-- An organisation with one category, without accounts, periods and budgets. -/
def sampleBudgeting : Planning where
  toDb := sampleDb
  categoryRules := .empty
  budgets := .empty
  forecastPlans := .empty
  forecastPlanItems := .empty
  organizations := Table.empty.insert { name := "Home" }
  billingPeriods := .empty

theorem sampleBudgeting_fresh : sampleBudgeting.Fresh := ⟨sampleDb_seeded, rfl, rfl⟩

/-- An expense of 10.00 settled on a day. -/
def sampleExpense (day : Date) : PlanningRequest :=
  .ledger (.create 1
    { accountId := 1, categoryId := 1, description := sampleDescription
      amount := sampleAmount, type := .expense, status := .settled, date := day
      settledDate_le := noSettledDate_le } false)

/-- A budget of 100.00 in the open period of January, and an expense in January. -/
def sampleJanuary : List PlanningRequest :=
  [.ledger (sampleAccount "Checking"),
    .budget (.create 1 (sampleDay 1 15)
      { categoryId := 1, amount := 10000, amount_pos := by norm_num } none),
    sampleExpense (sampleDay 1 20)]

/-- January is closed on its last day, and an expense follows in February. -/
def sampleFebruary : List PlanningRequest :=
  sampleJanuary ++ [.period (.close 1 (sampleDay 2 1) none),
    sampleExpense (sampleDay 2 5)]

def sampleRaise : BudgetUpdate where
  amount := some 12000
  amount_pos := by
    intro a ha
    obtain rfl : (12000 : ℚ) = a := Option.some_inj.mp ha
    norm_num

theorem exists_of_outcome {α : Type} {x : Outcome α} (h : x.2.isOk = true) :
    ∃ db a, x = (db, .ok a) := by
  obtain ⟨a, ha⟩ := exists_of_isOk h
  exact ⟨x.1, a, Prod.ext rfl ha⟩

/-- While January is open, raising the budget answers what the list shows. -/
theorem figures_of_sampleJanuary :
    ∃ now' r, updateBudget (serveAll PlanningRequest.step sampleBudgeting sampleJanuary) 1
        (sampleDay 1 25) 1 sampleRaise = (now', .ok r) ∧
      now'.ListsAs 1 r := by
  obtain ⟨now', r, h⟩ := exists_of_outcome (x := updateBudget
    (serveAll PlanningRequest.step sampleBudgeting sampleJanuary) 1
    (sampleDay 1 25) 1 sampleRaise) (by decide +kernel)
  refine ⟨now', r, h,
    ((figures_of_run sampleBudgeting_fresh sampleJanuary).1 _ _ _ _ _ _ h).mpr fun b hb => ?_⟩
  have hbudget : budget? (serveAll PlanningRequest.step sampleBudgeting sampleJanuary) 1 1 =
      some ⟨1, 1, 1, 10000, sampleDay 1 1, none⟩ := by decide +kernel
  obtain rfl := Option.some_inj.mp (hb.symm.trans hbudget)
  have hopen : periodAt? (serveAll PlanningRequest.step sampleBudgeting sampleJanuary) 1
      (sampleDay 1 1) =
      (openPeriods (serveAll PlanningRequest.step sampleBudgeting sampleJanuary) 1).head? := by
    decide +kernel
  exact ⟨Planning.round_eq_self_iff.mpr ⟨12000, by norm_num [sampleRaise]⟩,
    fun p hp => .inl (hopen.symm.trans hp)⟩

/-- Once January is closed, it counts the expense of February as well; the list does not. -/
theorem not_figures_of_sampleFebruary :
    ∃ now' r, updateBudget (serveAll PlanningRequest.step sampleBudgeting sampleFebruary) 1
        (sampleDay 2 10) 1 sampleRaise = (now', .ok r) ∧
      ¬now'.ListsAs 1 r := by
  obtain ⟨now', r, h⟩ := exists_of_outcome (x := updateBudget
    (serveAll PlanningRequest.step sampleBudgeting sampleFebruary) 1
    (sampleDay 2 10) 1 sampleRaise) (by decide +kernel)
  refine ⟨now', r, h, fun hlists => ?_⟩
  obtain ⟨rs, hrs, l, hl, -, hspent, -⟩ := hlists (sampleDay 2 10)
  have hanswer : (updateBudget (serveAll PlanningRequest.step sampleBudgeting sampleFebruary) 1
      (sampleDay 2 10) 1 sampleRaise).2.toOption.map
        (fun r => (r.spent, r.periodStart)) =
      some (2000, sampleDay 1 1) := by decide +kernel
  have hlist : (listBudgets (updateBudget
      (serveAll PlanningRequest.step sampleBudgeting sampleFebruary) 1
      (sampleDay 2 10) 1 sampleRaise).1 1
      (sampleDay 2 10)
      (some (sampleDay 1 1))).2.toOption.map (·.map (·.spent)) =
      some [1000] := by decide +kernel
  rw [h] at hanswer hlist
  obtain ⟨hr, hstart⟩ := Prod.mk.inj (Option.some_inj.mp hanswer)
  rw [hstart] at hrs
  rw [hrs] at hlist
  have hone : l.spent ∈ [1000] := Option.some_inj.mp hlist ▸ List.mem_map_of_mem hl
  rw [List.mem_singleton, hspent, hr] at hone
  exact absurd hone (by decide)

end Pfv
