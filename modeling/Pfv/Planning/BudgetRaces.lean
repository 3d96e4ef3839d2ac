import Pfv.Base.Slices
import Pfv.Planning.Anchors
import Pfv.Services.BudgetSessions

/-!
# Budgets under concurrent requests

Requests on budgets interleave. A transfer has its source locked from the read to the commit, so the
source never pays twice and no amount falls below zero; but it writes its target over as it has read
it before, unlocked. What others have done to the target since is lost: a commit moves the total of
the period by what the target was when it was read minus what it is now. An amount that ends in half
a cent is rounded up on both sides, which adds a cent.

## Main definitions

* `Planning.Frame`: what a write leaves as it was outside of the locks it needs.
* `Planning.BudgetsOk`: amounts from zero on and distinct keys.
* `BudgetPhase.Ready`: what a request knows of the rows that it has locked.
* `BudgetWrite.drift`: by how much a commit moves the total of a period.

## Main results

* `BudgetWrite.frame_of_write`: a write changes what its locks cover.
* `BudgetPhase.ready_of_advance`: what a step establishes, and what it keeps for the others.
* `budgets_of_interleaving`: the amounts, the keys and the locked sources of every interleaving.
* `total_of_interleaving`: the total of a period after every interleaving.
-/

namespace Pfv

variable {db db' : Planning} {locks : List BudgetLock}

/-! ### What a write leaves as it was -/

/-- The budget under an id has a key, as long as there is one. -/
def KeyAt (db : Planning) (id : ℕ) (k : BudgetKey) : Prop :=
  id < db.budgets.next ∧ ∀ b ∈ db.budgets.get? id, b.key = k

namespace Planning

/-- A write leaves rows and keys that its locks do not cover as they were, every row under its key,
and the plans. -/
structure Frame (locks : List BudgetLock) (db db' : Planning) : Prop where
  next_le : db.budgets.next ≤ db'.budgets.next
  row_eq : ∀ id < db.budgets.next, .row id ∉ locks → db'.budgets.get? id = db.budgets.get? id
  keyAt : ∀ {id k}, KeyAt db id k → KeyAt db' id k
  taken : ∀ {k}, .key k ∉ locks → KeyTaken db' k → KeyTaken db k
  items_eq : db'.forecastPlanItems = db.forecastPlanItems

theorem Frame.refl (locks : List BudgetLock) (db : Planning) : Frame locks db db :=
  ⟨le_rfl, fun _ _ _ => rfl, id, fun _ => id, rfl⟩

theorem Frame.trans {db'' : Planning} (h : Frame locks db db') (h' : Frame locks db' db'') :
    Frame locks db db'' where
  next_le := h.next_le.trans h'.next_le
  row_eq id hid hlock :=
    (h'.row_eq id (hid.trans_le h.next_le) hlock).trans (h.row_eq id hid hlock)
  keyAt hk := h'.keyAt (h.keyAt hk)
  taken hlock hk := h.taken hlock (h'.taken hlock hk)
  items_eq := h'.items_eq.trans h.items_eq

theorem Frame.mono {locks' : List BudgetLock} (h : Frame locks db db') (hsub : locks ⊆ locks') :
    Frame locks' db db' where
  next_le := h.next_le
  row_eq id hid hlock := h.row_eq id hid fun hmem => hlock (hsub hmem)
  keyAt := h.keyAt
  taken hlock := h.taken fun hmem => hlock (hsub hmem)
  items_eq := h.items_eq

theorem keyAt_of_get? {id : ℕ} {b : Budget} (h : db.budgets.get? id = some b) : KeyAt db id b.key :=
  ⟨Table.get?_lt h, fun c hc => by rw [h] at hc; exact congrArg _ (Option.some.inj hc).symm⟩

/-- A budget with another amount. -/
theorem frame_putBudget {b : Budget} (h : db.budgets.get? b.id = some b) (x : ℤ) :
    Frame [.row b.id] db (putBudget db { b with amount := x }) where
  next_le := le_rfl
  row_eq id _ hid := Table.get?_put_of_ne _ fun hid' => hid (by simp [hid', Row.id])
  keyAt := by
    rintro id k ⟨hlt, hk⟩
    refine ⟨hlt, fun c hc => ?_⟩
    rw [Option.mem_def, putBudget, Table.get?_put] at hc
    split_ifs at hc with hid
    · obtain ⟨-, -, rfl⟩ := Option.map_eq_some_iff.mp hc
      exact hk b (by exact hid ▸ h)
    · exact hk c hc
  taken := by
    rintro k - ⟨c, hc, rfl⟩
    rcases (Table.mem_put (a := { b with amount := x }) (Table.get?_mem h) rfl).mp hc with
      rfl | ⟨hc, -⟩
    · exact ⟨b, Table.get?_mem h, rfl⟩
    · exact ⟨c, hc, rfl⟩
  items_eq := rfl

theorem frame_addBudget (db : Planning) (b : Budget) : Frame [.key b.key] db (addBudget db b) where
  next_le := Nat.le_succ _
  row_eq id hid _ := by rw [addBudget, Table.get?_insert, if_neg (Nat.ne_of_lt hid)]
  keyAt := by
    rintro id k ⟨hlt, hk⟩
    refine ⟨Nat.lt_succ_of_lt hlt, fun c hc => hk c ?_⟩
    rwa [Option.mem_def, addBudget, Table.get?_insert, if_neg (Nat.ne_of_lt hlt)] at hc
  taken := by
    rintro k hk ⟨c, hc, rfl⟩
    rcases Table.mem_insert.mp hc with hc | rfl
    · exact ⟨c, hc, rfl⟩
    · exact absurd (List.mem_singleton.mpr rfl) hk
  items_eq := rfl

theorem frame_foldl_addBudget (new : List Budget) (db : Planning) :
    Frame (new.map (.key ·.key)) db (new.foldl addBudget db) := by
  induction new generalizing db with
  | nil => exact .refl _ db
  | cons b new ih =>
    exact ((frame_addBudget db b).mono (by simp)).trans ((ih _).mono (by simp))

theorem frame_removeBudget (db : Planning) (id : ℕ) :
    Frame [.row id] db { db with budgets := db.budgets.filter (·.id ≠ id) } where
  next_le := le_rfl
  row_eq id' _ hid' := by
    show (db.budgets.filter (·.id ≠ id)).get? id' = _
    rw [Table.get?_filter]
    cases hget : db.budgets.get? id' with
    | none => rfl
    | some b =>
      have hb : b.id = id' := Table.get?_id hget
      have hne : b.id ≠ id := fun h => hid' (by simp [← hb, h])
      simp [hne]
  keyAt := by
    rintro id' k ⟨hlt, hk⟩
    refine ⟨hlt, fun c hc => hk c ?_⟩
    change (db.budgets.filter (·.id ≠ id)).get? id' = some c at hc
    rw [Table.get?_filter] at hc
    exact (Option.filter_eq_some_iff.mp hc).1
  taken := by
    rintro k - ⟨c, hc, rfl⟩
    exact ⟨c, List.mem_of_mem_filter hc, rfl⟩
  items_eq := rfl

end Planning

theorem setBudgetAmount_eq_some {id : ℕ} {amount : ℚ}
    (h : setBudgetAmount db id amount = some db') :
    ∃ b, db.budgets.get? id = some b ∧ b.id = id ∧
      db' = putBudget db { b with amount := round amount } := by
  obtain ⟨b, hb, rfl⟩ := Option.map_eq_some_iff.mp h
  exact ⟨b, hb, Table.get?_id hb, rfl⟩

theorem frame_setBudgetAmount {id : ℕ} {amount : ℚ}
    (h : setBudgetAmount db id amount = some db') : Planning.Frame [.row id] db db' := by
  obtain ⟨b, hb, rfl, rfl⟩ := setBudgetAmount_eq_some h
  exact Planning.frame_putBudget hb _

/-- A write changes what its locks cover. -/
theorem BudgetWrite.frame_of_write {w : BudgetWrite} (h : w.write db = some db') :
    Planning.Frame w.locks db db' := by
  cases w with
  | move source target amount =>
    obtain ⟨db₁, htarget, hsource⟩ := Option.bind_eq_some_iff.mp h
    exact ((frame_setBudgetAmount htarget).mono (by simp [locks])).trans
      ((frame_setBudgetAmount hsource).mono (by simp [locks]))
  | moveNew source target amount =>
    simp only [write] at h
    split_ifs at h with htaken
    exact ((Planning.frame_addBudget db target).mono (by simp [locks])).trans
      ((frame_setBudgetAmount h).mono (by simp [locks]))
  | set b amount => exact frame_setBudgetAmount h
  | remove b =>
    obtain rfl := Option.some.inj h
    exact Planning.frame_removeBudget db b.id
  | insert new =>
    simp only [write] at h
    split_ifs at h with htaken
    obtain rfl := Option.some.inj h
    exact Planning.frame_foldl_addBudget new db

/-! ### Amounts and keys -/

/-- No amount, stored or planned, is negative, and no two budgets have one key. -/
structure Planning.BudgetsOk (db : Planning) : Prop where
  nonneg : ∀ b ∈ db.budgets.rows, 0 ≤ b.amount
  keys : Set.InjOn Budget.key {b | b ∈ db.budgets.rows}
  planned : ∀ i ∈ db.forecastPlanItems.rows, 0 ≤ i.plannedAmount

namespace Planning.BudgetsOk

theorem putBudget (h : db.BudgetsOk) {b : Budget} (hb : db.budgets.get? b.id = some b) {x : ℤ}
    (hx : 0 ≤ x) : (Pfv.putBudget db { b with amount := x }).BudgetsOk where
  nonneg c hc := by
    rcases (Table.mem_put (a := { b with amount := x }) (Table.get?_mem hb) rfl).mp hc with
      rfl | ⟨hc, -⟩
    · exact hx
    · exact h.nonneg c hc
  keys := by
    have hmem := fun c =>
      Table.mem_put (a := { b with amount := x }) (b := c) (Table.get?_mem hb) rfl
    -- The new row has the key of the old one, and the old one is the only row with its key.
    have hother : ∀ c ∈ db.budgets.rows, Row.id c ≠ b.id → c.key ≠ b.key :=
      fun c hc hne hkey => hne (congrArg Budget.id (h.keys hc (Table.get?_mem hb) hkey))
    intro c hc d hd hkey
    rcases (hmem c).mp hc with rfl | ⟨hc, hcid⟩ <;> rcases (hmem d).mp hd with rfl | ⟨hd, hdid⟩
    · rfl
    · exact absurd hkey.symm (hother d hd hdid)
    · exact absurd hkey (hother c hc hcid)
    · exact h.keys hc hd hkey
  planned := h.planned

theorem setBudgetAmount (h : db.BudgetsOk) {id : ℕ} {amount : ℚ}
    (hset : Pfv.setBudgetAmount db id amount = some db') (hamount : 0 ≤ round amount) :
    db'.BudgetsOk := by
  obtain ⟨b, hb, rfl, rfl⟩ := setBudgetAmount_eq_some hset
  exact h.putBudget hb hamount

theorem addBudget (h : db.BudgetsOk) {b : Budget} (hb : 0 ≤ b.amount) (hkey : ¬KeyTaken db b.key) :
    (Pfv.addBudget db b).BudgetsOk where
  nonneg c hc := by
    rcases Table.mem_insert.mp hc with hc | rfl
    · exact h.nonneg c hc
    · exact hb
  keys := by
    have hother : ∀ c ∈ db.budgets.rows, c.key ≠ b.key := fun c hc hck => hkey ⟨c, hc, hck⟩
    intro c hc d hd hcd
    rcases Table.mem_insert.mp hc with hc | rfl <;> rcases Table.mem_insert.mp hd with hd | rfl
    · exact h.keys hc hd hcd
    · exact absurd hcd (hother c hc)
    · exact absurd hcd.symm (hother d hd)
    · rfl
  planned := h.planned

theorem foldl_addBudget {new : List Budget} (h : db.BudgetsOk) (hnonneg : ∀ b ∈ new, 0 ≤ b.amount)
    (hnodup : (new.map Budget.key).Nodup) (hfree : ∀ b ∈ new, ¬KeyTaken db b.key) :
    (new.foldl Pfv.addBudget db).BudgetsOk := by
  induction new generalizing db with
  | nil => exact h
  | cons b new ih =>
    rw [List.forall_mem_cons] at hnonneg hfree
    rw [List.map_cons, List.nodup_cons] at hnodup
    refine ih (h.addBudget hnonneg.1 hfree.1) hnonneg.2 hnodup.2 fun c hc htaken => ?_
    have hne : BudgetLock.key c.key ∉ [BudgetLock.key b.key] := fun hmem =>
      hnodup.1 (BudgetLock.key.inj (List.mem_singleton.mp hmem) ▸ List.mem_map_of_mem hc)
    exact hfree.2 c hc ((Planning.frame_addBudget db b).taken hne htaken)

theorem removeBudget (h : db.BudgetsOk) (id : ℕ) :
    BudgetsOk { db with budgets := db.budgets.filter (·.id ≠ id) } where
  nonneg b hb := h.nonneg b (List.mem_of_mem_filter hb)
  keys := h.keys.mono fun _ hb => List.mem_of_mem_filter hb
  planned := h.planned

end Planning.BudgetsOk

/-! ### What a request knows -/

/-- The source of a transfer is locked and as the transfer has read it, with enough in it. -/
structure SourceHeld (db : Planning) (own : List BudgetLock) (source : Budget) (amount : ℚ) :
    Prop where
  locked : .row source.id ∈ own
  row : db.budgets.get? source.id = some source
  pos : 0 < amount
  le : amount ≤ source.amount

/-- The target of a transfer is in the period of the source. -/
def Budget.SamePeriod (target source : Budget) : Prop :=
  target.orgId = source.orgId ∧ target.periodStart = source.periodStart

/-- What a request knows of the rows that it is about to write. -/
def BudgetWrite.Ready (db : Planning) (own : List BudgetLock) : BudgetWrite → Prop
  | .move source target amount =>
      SourceHeld db own source amount ∧ target.SamePeriod source ∧ target.id ≠ source.id ∧
        KeyAt db target.id target.key ∧ 0 ≤ target.amount
  | .moveNew source target amount =>
      SourceHeld db own source amount ∧ target.SamePeriod source ∧ .key target.key ∈ own ∧
        ¬KeyTaken db target.key ∧ target.amount = round amount
  | .set budget amount => KeyAt db budget.id budget.key ∧ 0 < amount
  | .remove budget => KeyAt db budget.id budget.key
  | .insert new => (new.map Budget.key).Nodup ∧ ∀ b ∈ new, 0 ≤ b.amount

/-- The locks that a request has. -/
def BudgetPhase.own : BudgetPhase → List BudgetLock
  | .inserting _ _ source => [.row source.id]
  | .copying _ new => new.map (.key ·.key)
  | .committing own _ => own
  | _ => []

/-- What a request knows of the committed rows between its steps. -/
def BudgetPhase.Knows (db : Planning) : BudgetPhase → Prop
  | .starting _ => True
  | .reading _ snapshot =>
      (∀ b ∈ snapshot.budgets.rows, KeyAt db b.id b.key ∧ 0 ≤ b.amount) ∧
        ∀ i ∈ snapshot.forecastPlanItems.rows, 0 ≤ i.plannedAmount
  | .inserting org body source =>
      SourceHeld db [.row source.id] source body.amount ∧ source.orgId = org ∧
        source.id = body.fromBudgetId ∧ source.categoryId ≠ body.toCategoryId
  | .retrying _ body => ∃ k, KeyAt db body.fromBudgetId k ∧ k.categoryId ≠ body.toCategoryId
  | .copying todo new =>
      (new.map Budget.key).Nodup ∧ (∀ b ∈ new, ¬KeyTaken db b.key) ∧
        ∀ b ∈ todo ++ new, 0 ≤ b.amount
  | .committing own w => w.Ready db own

/-- A request has its locks and knows what they protect. -/
def BudgetPhase.Ready (s : BudgetShared) (p : BudgetPhase) : Prop :=
  p.own ⊆ s.held ∧ p.Knows s.state

/-! #### Facts that other requests leave alone -/

theorem SourceHeld.frame {own : List BudgetLock} {source : Budget} {amount : ℚ}
    (h : SourceHeld db own source amount) (hframe : db.Frame locks db')
    (hown : ∀ l ∈ own, l ∉ locks) : SourceHeld db' own source amount where
  locked := h.locked
  row := (hframe.row_eq _ (Table.get?_lt h.row) (hown _ h.locked)).trans h.row
  pos := h.pos
  le := h.le

theorem BudgetWrite.Ready.frame {own : List BudgetLock} {w : BudgetWrite} (h : w.Ready db own)
    (hframe : db.Frame locks db') (hown : ∀ l ∈ own, l ∉ locks) : w.Ready db' own := by
  cases w with
  | move source target amount =>
    obtain ⟨hsource, hperiod, hne, hkey, hnonneg⟩ := h
    exact ⟨hsource.frame hframe hown, hperiod, hne, hframe.keyAt hkey, hnonneg⟩
  | moveNew source target amount =>
    obtain ⟨hsource, hperiod, hkey, hfree, hamount⟩ := h
    exact ⟨hsource.frame hframe hown, hperiod, hkey, fun htaken =>
      hfree (hframe.taken (hown _ hkey) htaken), hamount⟩
  | set b amount => exact ⟨hframe.keyAt h.1, h.2⟩
  | remove b => exact hframe.keyAt h
  | insert new => exact h

theorem BudgetPhase.Knows.frame {p : BudgetPhase} (h : p.Knows db) (hframe : db.Frame locks db')
    (hown : ∀ l ∈ p.own, l ∉ locks) : p.Knows db' := by
  cases p with
  | starting t => trivial
  | reading t snapshot => exact ⟨fun b hb => ⟨hframe.keyAt (h.1 b hb).1, (h.1 b hb).2⟩, h.2⟩
  | inserting org body source =>
    obtain ⟨hsource, hrest⟩ := h
    exact ⟨hsource.frame hframe hown, hrest⟩
  | retrying org body =>
    obtain ⟨k, hk, hne⟩ := h
    exact ⟨k, hframe.keyAt hk, hne⟩
  | copying todo new =>
    obtain ⟨hnodup, hfree, hnonneg⟩ := h
    exact ⟨hnodup, fun b hb htaken =>
      hfree b hb (hframe.taken (hown _ (List.mem_map_of_mem hb)) htaken), hnonneg⟩
  | committing own w => exact BudgetWrite.Ready.frame h hframe hown

/-! ### Writes -/

theorem round_nonneg {a : ℚ} (h : 0 ≤ a) : 0 ≤ round a := by
  rw [round_eq]
  exact Int.floor_nonneg.mpr (by positivity)

theorem BudgetWrite.budgetsOk_of_write (h : db.BudgetsOk) {own : List BudgetLock} {w : BudgetWrite}
    (hready : w.Ready db own) (hw : w.write db = some db') : db'.BudgetsOk := by
  cases w with
  | move source target amount =>
    obtain ⟨hsource, -, -, -, hnonneg⟩ := hready
    obtain ⟨db₁, htarget, hsource'⟩ := Option.bind_eq_some_iff.mp hw
    have hamount : (0 : ℚ) ≤ target.amount := by exact_mod_cast hnonneg
    have h₁ := h.setBudgetAmount htarget (round_nonneg (add_nonneg hamount hsource.pos.le))
    exact h₁.setBudgetAmount hsource' (round_nonneg (sub_nonneg.mpr hsource.le))
  | moveNew source target amount =>
    obtain ⟨hsource, -, -, hfree, hamount⟩ := hready
    simp only [write, if_neg hfree] at hw
    have h₁ := h.addBudget (hamount ▸ round_nonneg hsource.pos.le) hfree
    exact h₁.setBudgetAmount hw (round_nonneg (sub_nonneg.mpr hsource.le))
  | set b amount => exact h.setBudgetAmount hw (round_nonneg hready.2.le)
  | remove b =>
    obtain rfl := Option.some.inj hw
    exact h.removeBudget b.id
  | insert new =>
    simp only [write] at hw
    split_ifs at hw with htaken
    obtain rfl := Option.some.inj hw
    exact h.foldl_addBudget hready.2 hready.1 fun b hb hk => htaken ⟨b, hb, hk⟩

/-! ### Reads -/

section Reads

variable {snapshot : Planning} {org : ℕ}

theorem readTransfer_eq_ok {body : BudgetTransfer} {source : Budget} {target : Option Budget}
    (h : readTransfer db snapshot org body = .ok (source, target)) :
    db.budgets.get? source.id = some source ∧ source.id = body.fromBudgetId ∧ source.orgId = org ∧
      body.amount ≤ source.amount ∧ source.categoryId ≠ body.toCategoryId ∧
        target = budgetFor? snapshot org body.toCategoryId source.periodStart := by
  obtain ⟨source, hsource, h⟩ := orRaise_bind_eq_ok.mp h
  obtain ⟨hcheck, h⟩ := unit_bind_eq_ok.mp h
  obtain ⟨rfl, rfl⟩ := Prod.mk.inj (pure_eq_ok.mp h)
  obtain ⟨hget, rfl⟩ := budget?_eq_some.mp hsource
  have hid : source.id = body.fromBudgetId := Table.get?_id hget
  simp only [checkTransfer, bind_eq_ok, orRaise_eq_ok, raiseIf_eq_ok, not_lt] at hcheck
  obtain ⟨_, hle, cat, hcat, _, -, hne⟩ := hcheck
  have hcatId : cat.id = body.toCategoryId := Table.get?_id (Option.filter_eq_some_iff.mp hcat).1
  exact ⟨hid ▸ hget, hid, rfl, hle, fun h => hne (hcatId.trans h.symm), rfl⟩

theorem rereadTransfer_eq_ok {body : BudgetTransfer} {source target : Budget}
    (h : rereadTransfer db org body = .ok (source, target)) :
    db.budgets.get? source.id = some source ∧ source.id = body.fromBudgetId ∧ source.orgId = org ∧
      body.amount ≤ source.amount ∧
        budgetFor? db org body.toCategoryId source.periodStart = some target := by
  obtain ⟨source, hsource, h⟩ := orRaise_bind_eq_ok.mp h
  obtain ⟨hle, h⟩ := raiseIf_bind_eq_ok.mp h
  obtain ⟨target, htarget, h⟩ := orRaise_bind_eq_ok.mp h
  obtain ⟨rfl, rfl⟩ := Prod.mk.inj (pure_eq_ok.mp h)
  obtain ⟨hget, rfl⟩ := budget?_eq_some.mp hsource
  have hid : source.id = body.fromBudgetId := Table.get?_id hget
  exact ⟨hid ▸ hget, hid, rfl, not_lt.mp hle, htarget⟩

/-- A target that was read before and a source that is locked now are budgets of one period, and not
one budget. -/
theorem ready_move {own : List BudgetLock} {body : BudgetTransfer} {source target : Budget}
    (hsource : SourceHeld db own source body.amount) (hcat : source.categoryId ≠ body.toCategoryId)
    (htarget : budgetFor? snapshot source.orgId body.toCategoryId source.periodStart = some target)
    (hsnapshot : ∀ b ∈ snapshot.budgets.rows, KeyAt db b.id b.key ∧ 0 ≤ b.amount) :
    (BudgetWrite.move source target body.amount).Ready db own := by
  obtain ⟨hmem, horg, hcat', hstart⟩ := budgetFor?_eq_some htarget
  obtain ⟨hkey, hnonneg⟩ := hsnapshot target hmem
  refine ⟨hsource, ⟨horg, hstart⟩, fun hid => hcat ?_, hkey, hnonneg⟩
  have hkeys : source.key = target.key := hkey.2 source (by rw [hid]; exact hsource.row)
  exact (congrArg BudgetKey.categoryId hkeys).trans hcat'

theorem readCopy_eq_ok {period : BillingPeriod} {todo : List Budget}
    (h : readCopy snapshot org period = .ok todo)
    (hitems : ∀ i ∈ snapshot.forecastPlanItems.rows, 0 ≤ i.plannedAmount) :
    ∀ b ∈ todo, 0 ≤ b.amount := by
  obtain ⟨plan, -, h⟩ := orRaise_bind_eq_ok.mp h
  obtain rfl := pure_eq_ok.mp h
  intro b hb
  obtain ⟨i, hi, rfl⟩ := List.mem_map.mp hb
  exact hitems i (List.mem_of_mem_filter (List.mem_of_mem_filter hi))

theorem readCreate_eq_ok {body : BudgetCreate} {period : BillingPeriod} {b : Budget}
    (h : readCreate snapshot org body period = .ok b) : b = body.budget org period := by
  obtain ⟨-, h⟩ := unit_bind_eq_ok.mp h
  obtain ⟨-, h⟩ := raiseIf_bind_eq_ok.mp h
  exact (pure_eq_ok.mp h).symm

theorem readUpdate_eq_some {budgetId : ℕ} {body : BudgetUpdate} {w : BudgetWrite}
    (h : readUpdate snapshot org budgetId body = some w) :
    ∃ b ∈ snapshot.budgets.rows, ∃ a, 0 < a ∧ w = .set b a := by
  obtain ⟨b, hb, h⟩ := Option.bind_eq_some_iff.mp h
  obtain ⟨a, ha, rfl⟩ := Option.map_eq_some_iff.mp h
  exact ⟨b, Table.get?_mem (budget?_eq_some.mp hb).1, a,
    body.amount_pos a (Option.filter_eq_some_iff.mp ha).1, rfl⟩

end Reads

/-! ### One step -/

/-- What a step of a request does: the amounts and keys stay in order, the request knows what it
needs for the next step, the locks that it gets were free, and what others have locked stays. -/
structure BudgetStep (s s' : BudgetShared) (p : BudgetPhase) (next : Option BudgetPhase) :
    Prop where
  budgets : s'.state.BudgetsOk
  ready : ∀ p' ∈ next, p'.Ready s'
  own : ∀ p' ∈ next, ∀ l ∈ p'.own, l ∈ p.own ∨ l ∉ s.held
  held : ∀ l ∈ s.held, l ∉ p.own → l ∈ s'.held
  frame : ∃ locks, s.state.Frame locks s'.state ∧ ∀ l ∈ locks, l ∈ s.held → l ∈ p.own

variable {s : BudgetShared} {p : BudgetPhase}

/-- A request that ends without a write. -/
theorem BudgetStep.stop (hs : s.state.BudgetsOk) : BudgetStep s s p none where
  budgets := hs
  ready _ h := nomatch h
  own _ h := nomatch h
  held _ hl _ := hl
  frame := ⟨[], .refl _ _, fun _ h => nomatch h⟩

/-- A request that goes on with the locks it has. -/
theorem BudgetStep.goOn (hs : s.state.BudgetsOk) (h : p.Ready s) {p' : BudgetPhase}
    (hown : p'.own = p.own) (hknows : p'.Knows s.state) : BudgetStep s s p (some p') where
  budgets := hs
  ready q hq := by
    obtain rfl := Option.mem_some_iff.mp hq
    exact ⟨hown ▸ h.1, hknows⟩
  own q hq l hl := by
    obtain rfl := Option.mem_some_iff.mp hq
    exact .inl (hown ▸ hl)
  held _ hl _ := hl
  frame := ⟨[], .refl _ _, fun _ h => nomatch h⟩

/-- A request that gets a lock. -/
theorem BudgetStep.lock (hs : s.state.BudgetsOk) (h : p.Ready s) {l : BudgetLock}
    (hfree : l ∉ s.held) {p' : BudgetPhase} (hown : ∀ m ∈ p'.own, m = l ∨ m ∈ p.own)
    (hknows : p'.Knows s.state) :
    BudgetStep s { s with held := l :: s.held } p (some p') where
  budgets := hs
  ready q hq := by
    obtain rfl := Option.mem_some_iff.mp hq
    refine ⟨fun m hm => ?_, hknows⟩
    rcases hown m hm with rfl | hm
    · exact List.mem_cons_self
    · exact List.mem_cons_of_mem _ (h.1 hm)
  own q hq m hm := by
    obtain rfl := Option.mem_some_iff.mp hq
    rcases hown m hm with rfl | hm
    · exact .inr hfree
    · exact .inl hm
  held _ hl _ := List.mem_cons_of_mem _ hl
  frame := ⟨[], .refl _ _, fun _ h => nomatch h⟩

theorem not_mem_held_of_not_blocked {l : BudgetLock} (h : ¬Locking.Blocked s [] [l]) : l ∉ s.held :=
  fun hl => h ⟨l, List.mem_singleton_self l, hl, List.not_mem_nil⟩

theorem BudgetTask.step_read {t : BudgetTask} {snapshot : Planning} (hs : s.state.BudgetsOk)
    (h : (BudgetPhase.reading t snapshot).Ready s) :
    BudgetStep s (t.read s snapshot).1 (.reading t snapshot) (t.read s snapshot).2 := by
  obtain ⟨hbudgets, hitems⟩ := h.2
  cases t with
  | transfer org body =>
    simp only [read]
    split_ifs with hblocked
    · exact .goOn hs h rfl h.2
    have hfree := not_mem_held_of_not_blocked hblocked
    split
    · exact .stop hs
    · next source target hread =>
      obtain ⟨hrow, hid, rfl, hle, hcat, htarget⟩ := readTransfer_eq_ok hread
      exact .lock hs h (hid ▸ hfree) (fun m hm => .inl (List.mem_singleton.mp hm))
        (ready_move ⟨List.mem_singleton_self _, hrow, body.amount_pos, hle⟩ hcat htarget.symm
          hbudgets)
    · next source hread =>
      obtain ⟨hrow, hid, horg, hle, hcat, -⟩ := readTransfer_eq_ok hread
      exact .lock hs h (hid ▸ hfree) (fun m hm => .inl (List.mem_singleton.mp hm))
        ⟨⟨List.mem_singleton_self _, hrow, body.amount_pos, hle⟩, horg, hid, hcat⟩
  | update org budgetId body =>
    simp only [read]
    cases hw : readUpdate snapshot org budgetId body with
    | none => exact .stop hs
    | some w =>
      obtain ⟨b, hb, a, ha, rfl⟩ := readUpdate_eq_some hw
      exact .goOn hs h rfl ⟨(hbudgets b hb).1, ha⟩
  | delete org budgetId =>
    simp only [read]
    cases hb : budget? snapshot budgetId org with
    | none => exact .stop hs
    | some b => exact .goOn hs h rfl (hbudgets b (Table.get?_mem (budget?_eq_some.mp hb).1)).1
  | create org body period =>
    simp only [read]
    split
    · exact .stop hs
    · next b hread =>
      obtain rfl := readCreate_eq_ok hread
      refine .goOn hs h rfl ⟨List.nodup_singleton _, fun c hc => ?_⟩
      rw [List.mem_singleton.mp hc]
      exact round_nonneg body.amount_pos.le
  | copy org period =>
    simp only [read]
    split
    · exact .stop hs
    · next todo hread =>
      exact .goOn hs h rfl ⟨List.nodup_nil, fun _ hb => (nomatch hb),
        by rw [List.append_nil]; exact readCopy_eq_ok hread hitems⟩

/-- A commit, or the end of a request whose commit fails. -/
theorem BudgetStep.commit {own : List BudgetLock} {w : BudgetWrite} (hs : s.state.BudgetsOk)
    (h : (BudgetPhase.committing own w).Ready s) (hfree : ¬Locking.Blocked s own w.locks) :
    BudgetStep s { state := (w.write s.state).getD s.state, held := s.held.filter (· ∉ own) }
      (.committing own w) none where
  budgets := by
    cases hw : w.write s.state with
    | none => exact hs
    | some db' => exact w.budgetsOk_of_write hs h.2 hw
  ready _ h := nomatch h
  own _ h := nomatch h
  held l hl hown := List.mem_filter.mpr ⟨hl, decide_eq_true hown⟩
  frame := by
    refine ⟨w.locks, ?_, fun l hl hheld => by_contra fun hown => hfree ⟨l, hl, hheld, hown⟩⟩
    cases hw : w.write s.state with
    | none => exact .refl _ _
    | some db' => exact w.frame_of_write hw

theorem BudgetPhase.step_advance (hs : s.state.BudgetsOk) (h : p.Ready s) :
    BudgetStep s (p.advance s).1 p (p.advance s).2 := by
  cases p with
  | starting t =>
    exact .goOn hs h rfl
      ⟨fun b hb => ⟨Planning.keyAt_of_get? (Table.get?_of_mem hb), hs.nonneg b hb⟩, hs.planned⟩
  | reading t snapshot => exact BudgetTask.step_read hs h
  | inserting org body source =>
    obtain ⟨hsource, rfl, hid, hcat⟩ := h.2
    simp only [advance]
    split_ifs with hblocked htaken
    · exact .goOn hs h rfl h.2
    · -- The source is released, and its category remembered.
      exact
        { budgets := hs
          ready := fun q hq => by
            obtain rfl := Option.mem_some_iff.mp hq
            exact ⟨List.nil_subset _, source.key, hid ▸ Planning.keyAt_of_get? hsource.row, hcat⟩
          own := fun q hq l hl => by
            obtain rfl := Option.mem_some_iff.mp hq
            exact absurd hl List.not_mem_nil
          held := fun l hl hown => List.mem_filter.mpr
            ⟨hl, decide_eq_true fun heq => hown (List.mem_singleton.mpr heq)⟩
          frame := ⟨[], .refl _ _, fun _ h => nomatch h⟩ }
    · refine .lock hs h (not_mem_held_of_not_blocked hblocked)
        (fun m hm => (List.mem_cons.mp hm).imp_right id)
        ⟨⟨List.mem_cons_of_mem _ (List.mem_singleton_self _), hsource.row, hsource.pos, hsource.le⟩,
          ⟨rfl, rfl⟩, List.mem_cons_self, htaken, rfl⟩
  | retrying org body =>
    obtain ⟨k, hk, hne⟩ := h.2
    simp only [advance]
    split_ifs with hblocked
    · exact .goOn hs h rfl h.2
    have hfree := not_mem_held_of_not_blocked hblocked
    split
    · exact .stop hs
    · next source target hread =>
      obtain ⟨hrow, hid, rfl, hle, htarget⟩ := rereadTransfer_eq_ok hread
      have hkey : source.key = k := hk.2 source (hid ▸ hrow)
      have hcat : source.categoryId ≠ body.toCategoryId := by
        rw [← hkey] at hne
        exact hne
      exact .lock hs h (hid ▸ hfree) (fun m hm => .inl (List.mem_singleton.mp hm))
        (ready_move ⟨List.mem_singleton_self _, hrow, body.amount_pos, hle⟩ hcat htarget
          fun b hb => ⟨Planning.keyAt_of_get? (Table.get?_of_mem hb), hs.nonneg b hb⟩)
  | copying todo new =>
    obtain ⟨hnodup, hfree, hnonneg⟩ := h.2
    cases todo with
    | nil => exact .goOn hs h rfl ⟨hnodup, hnonneg⟩
    | cons b todo =>
      simp only [advance]
      split_ifs with hblocked htaken
      · exact .goOn hs h rfl h.2
      · exact .goOn hs h rfl ⟨hnodup, hfree, fun c hc => hnonneg c (List.mem_cons_of_mem b hc)⟩
      · obtain ⟨htaken, hnew⟩ := not_or.mp htaken
        -- A key that is not blocked is free or one of the request's own.
        have hheld : BudgetLock.key b.key ∉ s.held := fun hl => hblocked
          ⟨_, List.mem_singleton_self _, hl, fun hown => by
            obtain ⟨c, hc, hck⟩ := List.mem_map.mp hown
            exact hnew (BudgetLock.key.inj hck ▸ List.mem_map_of_mem hc)⟩
        refine .lock hs h hheld (fun m hm => ?_) ⟨?_, ?_, ?_⟩
        · rw [own, List.map_append, List.mem_append] at hm
          exact hm.symm.imp_left List.mem_singleton.mp
        · rw [List.map_append]
          exact List.nodup_append.mpr ⟨hnodup, List.nodup_singleton _, fun x hx y hy hxy =>
            hnew (List.mem_singleton.mp hy ▸ hxy ▸ hx)⟩
        · intro c hc
          rcases List.mem_append.mp hc with hc | hc
          · exact hfree c hc
          · exact List.mem_singleton.mp hc ▸ htaken
        · intro c hc
          refine hnonneg c ?_
          simp only [List.mem_append, List.mem_cons] at hc ⊢
          tauto
  | committing own w =>
    simp only [advance]
    split_ifs with hblocked
    · exact .goOn hs h rfl h.2
    · exact .commit hs h hblocked

/-! ### Runs -/

/-- What an interleaving of requests on budgets keeps: the amounts and keys of the budgets, and what
each live request knows, with locks that it shares with no other. -/
structure BudgetsRunning (s : Running BudgetShared BudgetPhase) : Prop where
  budgets : s.shared.state.BudgetsOk
  ready : ∀ p ∈ s.live, p.Ready s.shared
  disjoint : s.live.Pairwise fun p q => p.own.Disjoint q.own

/-- A database without requests. -/
def idleBudgets (db : Planning) : Running BudgetShared BudgetPhase :=
  { shared := { state := db, held := [] }, live := [] }

/-- The state and the live requests of every interleaving. -/
theorem budgetsRunning_interleave (h : db.BudgetsOk) (ts : List (Turn BudgetTask)) :
    BudgetsRunning (budgetSessions.interleave (idleBudgets db) ts) := by
  have hstart (s : BudgetShared) (r : BudgetTask) : (budgetSessions.start r).Ready s :=
    ⟨List.nil_subset _, trivial⟩
  have hpairwise := Sessions.interleave_pairwise (I := fun s : BudgetShared => s.state.BudgetsOk)
    (J := fun s p => BudgetPhase.Ready s p) (K := fun p q => p.own.Disjoint q.own)
    (s := idleBudgets db)
    (fun h => h.symm) (fun s r _ => hstart s r)
    (fun r q => List.disjoint_nil_right _) (fun s p hs hp _ => ?_) ts h
    (fun _ hp => absurd hp List.not_mem_nil) List.Pairwise.nil
    (Sessions.respects_of_forall (fun _ _ => (trivial : True)) _ ts :
      budgetSessions.Respects (fun _ _ => True) _ ts)
  · exact ⟨hpairwise.1, hpairwise.2.1, hpairwise.2.2⟩
  · have hstep : BudgetStep s (budgetSessions.advance s p).1 p (budgetSessions.advance s p).2 :=
      BudgetPhase.step_advance hs hp
    refine ⟨hstep.budgets, hstep.ready, fun q hq hqp => ⟨⟨fun l hl => ?_, ?_⟩, fun p' hp' => ?_⟩⟩
    · exact hstep.held l (hq.1 hl) (hqp hl)
    · obtain ⟨locks, hframe, hlocks⟩ := hstep.frame
      exact hq.2.frame hframe fun l hl hmem => hqp hl (hlocks l hmem (hq.1 hl))
    · intro l hl hl'
      exact (hstep.own p' hp' l hl').elim (hqp hl) fun hfree => hfree (hq.1 hl)

/-- The source that a transfer has locked. -/
def BudgetPhase.source? : BudgetPhase → Option Budget
  | .inserting _ _ source => some source
  | .committing _ (.move source _ _) => some source
  | .committing _ (.moveNew source _ _) => some source
  | _ => none

/-- In every interleaving of requests on budgets, no amount is negative and no key is taken twice,
and the source of a transfer stays, from its lock to the commit, as the transfer has read it. -/
theorem budgets_of_interleaving (db : Planning) (h : db.BudgetsOk) (ts : List (Turn BudgetTask)) :
    let s := budgetSessions.interleave (idleBudgets db) ts
    s.shared.state.BudgetsOk ∧ ∀ p ∈ s.live, ∀ source ∈ p.source?,
      s.shared.state.budgets.get? source.id = some source := by
  have hrun := budgetsRunning_interleave h ts
  refine ⟨hrun.budgets, fun p hp source hsource => ?_⟩
  have hknows := (hrun.ready p hp).2
  cases p with
  | inserting org body source' =>
    obtain rfl := Option.some.inj hsource
    exact hknows.1.row
  | committing own w =>
    cases w with
    | move source' target amount =>
      obtain rfl := Option.some.inj hsource
      exact hknows.1.row
    | moveNew source' target amount =>
      obtain rfl := Option.some.inj hsource
      exact hknows.1.row
    | _ => cases hsource
  | _ => cases hsource

/-! ### The total of a period -/

/-- The organisation and the start of the period that a budget is for. -/
def Budget.period (b : Budget) : ℕ × Date := (b.orgId, b.periodStart)

/-- The sum of the budgets of an organisation for a period. -/
def periodTotal (db : Planning) (period : ℕ × Date) : ℤ :=
  db.budgets.sumOver Budget.period Budget.amount period

/-- The amount of a budget that is there. -/
def amountNow (db : Planning) (id : ℕ) : ℤ := ((db.budgets.get? id).map Budget.amount).getD 0

/-- What rounding adds when an amount is taken from one whole number and added to another. -/
def halfCent (amount : ℚ) : ℤ := if Int.fract amount = 1 / 2 then 1 else 0

theorem round_add_round_neg (a : ℚ) : round a + round (-a) = halfCent a := by
  have hfract : Int.fract a + ⌊a⌋ = a := Int.fract_add_floor a
  have hnonneg := Int.fract_nonneg a
  have hlt := Int.fract_lt_one a
  rw [halfCent]
  split_ifs with hhalf
  · have hpos : round a = ⌊a⌋ + 1 := round_eq_iff.mpr (by push_cast; constructor <;> linarith)
    have hneg : round (-a) = -⌊a⌋ := round_eq_iff.mpr (by push_cast; constructor <;> linarith)
    omega
  · rcases lt_or_gt_of_ne hhalf with hlow | hhigh
    · have hpos : round a = ⌊a⌋ := round_eq_iff.mpr (by constructor <;> linarith)
      have hneg : round (-a) = -⌊a⌋ := round_eq_iff.mpr (by push_cast; constructor <;> linarith)
      omega
    · have hpos : round a = ⌊a⌋ + 1 := round_eq_iff.mpr (by push_cast; constructor <;> linarith)
      have hneg : round (-a) = -⌊a⌋ - 1 :=
        round_eq_iff.mpr (by push_cast; constructor <;> linarith)
      omega

theorem round_intCast_sub (n : ℤ) (a : ℚ) : round ((n : ℚ) - a) = n + round (-a) := by
  rw [sub_eq_add_neg, round_intCast_add]

/-- By how much a commit moves the total of a period. A transfer between two budgets writes its
target as it has read it, with the amount added: what the target has gained since is lost, and what
it has paid since is paid back. -/
def BudgetWrite.drift (db : Planning) (period : ℕ × Date) : BudgetWrite → ℤ
  | .move source target amount =>
      if source.period = period then target.amount - amountNow db target.id + halfCent amount else 0
  | .moveNew source _ amount => if source.period = period then halfCent amount else 0
  | .set budget amount =>
      if budget.period = period then round amount - amountNow db budget.id else 0
  | .remove budget => if budget.period = period then -amountNow db budget.id else 0
  | .insert new => (new.map fun b => if b.period = period then b.amount else 0).sum

/-- By how much a step moves the total of a period: only a commit that succeeds does. -/
def BudgetPhase.drift (period : ℕ × Date) (s : BudgetShared) : BudgetPhase → ℤ
  | .committing own w =>
      if Locking.Blocked s own w.locks then 0
      else (w.write s.state).elim 0 fun _ => w.drift s.state period
  | _ => 0

variable {period : ℕ × Date}

theorem periodTotal_setBudgetAmount {id : ℕ} {amount : ℚ} {b : Budget}
    (h : setBudgetAmount db id amount = some db') (hb : db.budgets.get? id = some b) :
    periodTotal db' period =
      periodTotal db period + if b.period = period then round amount - b.amount else 0 := by
  obtain ⟨c, hc, rfl, rfl⟩ := setBudgetAmount_eq_some h
  obtain rfl := Option.some.inj (hc.symm.trans hb)
  have hput := Table.sumOver_put (b := { c with amount := round amount }) hc Budget.period
    Budget.amount period
  have hperiod : Budget.period { c with amount := round amount } = c.period := rfl
  rw [hperiod] at hput
  rw [periodTotal, putBudget, hput, periodTotal]
  split_ifs
  · exact sub_add_eq_add_sub _ _ _ |>.trans (add_sub_assoc _ _ _)
  · rw [sub_zero]

theorem periodTotal_addBudget (db : Planning) (b : Budget) (period : ℕ × Date) :
    periodTotal (addBudget db b) period =
      periodTotal db period + if b.period = period then b.amount else 0 :=
  Table.sumOver_insert _ _ _ _ _

theorem periodTotal_foldl_addBudget (new : List Budget) (db : Planning) :
    periodTotal (new.foldl addBudget db) period =
      periodTotal db period + (new.map fun b => if b.period = period then b.amount else 0).sum := by
  induction new generalizing db with
  | nil => exact (add_zero _).symm
  | cons b new ih =>
    rw [List.foldl_cons, ih, periodTotal_addBudget, List.map_cons, List.sum_cons, add_assoc]

theorem periodTotal_removeBudget (db : Planning) (id : ℕ) (period : ℕ × Date) :
    periodTotal { db with budgets := db.budgets.filter (·.id ≠ id) } period =
      periodTotal db period - ((db.budgets.get? id).toList.map fun b =>
        if b.period = period then b.amount else 0).sum := by
  have hgone : db.budgets.rows.filter (fun c => !decide (c.id ≠ id)) =
      (db.budgets.get? id).toList := by
    rw [← Table.filter_id_eq]
    exact List.filter_congr fun c _ => by simp [Row.id]
  rw [periodTotal, Table.sumOver_filter, hgone]
  rfl

theorem amountNow_of_get? {id : ℕ} {b : Budget} (h : db.budgets.get? id = some b) :
    amountNow db id = b.amount := by
  rw [amountNow, h]
  rfl

theorem Budget.period_eq_of_key_eq {b c : Budget} (h : b.key = c.key) : b.period = c.period :=
  Prod.ext (congrArg BudgetKey.orgId h) (congrArg BudgetKey.periodStart h)

/-- A successful commit moves the total of a period by its drift. -/
theorem BudgetWrite.periodTotal_write {own : List BudgetLock} {w : BudgetWrite}
    (hready : w.Ready db own) (hw : w.write db = some db') :
    periodTotal db' period = periodTotal db period + w.drift db period := by
  cases w with
  | move source target amount =>
    obtain ⟨hsource, hperiod, hne, hkey, -⟩ := hready
    obtain ⟨db₁, htarget, hpaid⟩ := Option.bind_eq_some_iff.mp hw
    obtain ⟨t, ht, -, -⟩ := setBudgetAmount_eq_some htarget
    have hsource₁ : db₁.budgets.get? source.id = some source :=
      ((frame_setBudgetAmount htarget).row_eq _ (Table.get?_lt hsource.row) fun hmem =>
        hne (BudgetLock.row.inj (List.mem_singleton.mp hmem)).symm).trans hsource.row
    have hperiod : t.period = source.period :=
      (Budget.period_eq_of_key_eq (hkey.2 t ht)).trans (Prod.ext hperiod.1 hperiod.2)
    rw [periodTotal_setBudgetAmount hpaid hsource₁, periodTotal_setBudgetAmount htarget ht, hperiod,
      drift, amountNow_of_get? ht, round_intCast_add, round_intCast_sub, ← round_add_round_neg]
    split_ifs <;> ring
  | moveNew source target amount =>
    obtain ⟨hsource, hperiod, hkey, hfree, hamount⟩ := hready
    simp only [write, if_neg hfree] at hw
    have hsource₁ : (addBudget db target).budgets.get? source.id = some source :=
      Table.get?_insert_of_some _ hsource.row
    have hperiod : target.period = source.period := Prod.ext hperiod.1 hperiod.2
    rw [periodTotal_setBudgetAmount hw hsource₁, periodTotal_addBudget, hperiod, hamount, drift,
      round_intCast_sub, ← round_add_round_neg]
    split_ifs <;> ring
  | set b amount =>
    obtain ⟨c, hc, -, -⟩ := setBudgetAmount_eq_some hw
    have hperiod : c.period = b.period := Budget.period_eq_of_key_eq (hready.1.2 c hc)
    rw [periodTotal_setBudgetAmount hw hc, hperiod, drift, amountNow_of_get? hc]
  | remove b =>
    obtain rfl := Option.some.inj hw
    rw [periodTotal_removeBudget, drift, amountNow]
    cases hc : db.budgets.get? b.id with
    | none => simp
    | some c =>
      have hperiod : c.period = b.period := Budget.period_eq_of_key_eq (hready.2 c hc)
      rw [← hperiod]
      split_ifs with h <;> simp [h, sub_eq_add_neg]
  | insert new =>
    simp only [write] at hw
    split_ifs at hw with htaken
    obtain rfl := Option.some.inj hw
    exact periodTotal_foldl_addBudget new db

theorem BudgetTask.state_read (t : BudgetTask) (s : BudgetShared) (snapshot : Planning) :
    (t.read s snapshot).1.state = s.state := by
  cases t with
  | transfer org body =>
    simp only [read]
    split_ifs
    · rfl
    · split <;> rfl
  | update org budgetId body => rfl
  | delete org budgetId => rfl
  | create org body period =>
    simp only [read]
    split <;> rfl
  | copy org period =>
    simp only [read]
    split <;> rfl

/-- Every step of a request moves the total of a period by its drift. -/
theorem BudgetPhase.periodTotal_advance {s : BudgetShared} {p : BudgetPhase} (h : p.Ready s) :
    periodTotal (p.advance s).1.state period = periodTotal s.state period + p.drift period s := by
  have hstay {s' : BudgetShared} (hs' : s'.state = s.state) :
      periodTotal s'.state period = periodTotal s.state period + 0 := by rw [hs', add_zero]
  cases p with
  | committing own w =>
    simp only [advance, drift]
    split_ifs with hblocked
    · exact hstay rfl
    · cases hw : w.write s.state with
      | none => exact hstay rfl
      | some db' => exact w.periodTotal_write h.2 hw
  | starting t => exact hstay rfl
  | reading t snapshot => exact hstay (t.state_read s snapshot)
  | inserting org body source =>
    refine hstay ?_
    simp only [advance]
    split_ifs <;> rfl
  | retrying org body =>
    refine hstay ?_
    simp only [advance]
    split_ifs
    · rfl
    · split <;> rfl
  | copying todo new =>
    refine hstay ?_
    cases todo with
    | nil => rfl
    | cons b todo =>
      simp only [advance]
      split_ifs <;> rfl

/-- After every interleaving of requests on budgets, the total of a period is what it was and what
the commits have moved it by: a transfer conserves it but for what others have done to its target
between the read and the write, and for half a cent that is rounded up on both sides. -/
theorem total_of_interleaving (db : Planning) (h : db.BudgetsOk) (ts : List (Turn BudgetTask))
    (period : ℕ × Date) :
    periodTotal (budgetSessions.interleave (idleBudgets db) ts).shared.state period =
      periodTotal db period +
        budgetSessions.weight (BudgetPhase.drift period) (idleBudgets db) ts :=
  Sessions.measure_interleave (μ := fun s : BudgetShared => periodTotal s.state period)
    (I := BudgetsRunning)
    (fun _ _ hs hp => BudgetPhase.periodTotal_advance (hs.ready _ hp)) ts
    (budgetsRunning_interleave h)

/-! #### Two transfers into one budget -/

/-- Three budgets of one period: two of 1.00 and one of 0.10. -/
def sampleAllocation : Planning where
  toDb :=
    { sampleDb with
      categories := ((Table.empty.insert { orgId := 1, name := "Home" }).insert
        { orgId := 1, name := "Food" }).insert { orgId := 1, name := "Travel" } }
  categoryRules := .empty
  budgets := ((Table.empty.insert
    { orgId := 1, categoryId := 1, amount := 100, periodStart := sampleDate }).insert
    { orgId := 1, categoryId := 2, amount := 100, periodStart := sampleDate }).insert
    { orgId := 1, categoryId := 3, amount := 10, periodStart := sampleDate }
  forecastPlans := .empty
  forecastPlanItems := .empty
  organizations := .empty
  billingPeriods := .empty

theorem sampleAllocation_ok : sampleAllocation.BudgetsOk where
  nonneg := by decide
  keys := fun _ hb _ hc h => List.inj_on_of_nodup_map
    (by decide : (sampleAllocation.budgets.rows.map Budget.key).Nodup) hb hc h
  planned := by decide

theorem sampleMove_pos : (0 : ℚ) < 30 := by norm_num

def sampleMove (fromBudgetId : ℕ) : BudgetTask :=
  .transfer 1
    { fromBudgetId := fromBudgetId, toCategoryId := 3, amount := 30, amount_pos := sampleMove_pos }

/-- Two transfers into one budget, each of which reads it before the other commits. -/
def sampleTwoTransfers : List (Turn BudgetTask) :=
  [.start (sampleMove 1), .start (sampleMove 2), .advance 0, .advance 0, .advance 0, .advance 0,
    .advance 0, .advance 0]

theorem sampleTwoTransfers_budgets :
    let s := budgetSessions.interleave (idleBudgets sampleAllocation) sampleTwoTransfers
    s.shared.state.BudgetsOk ∧ ∀ p ∈ s.live, ∀ source ∈ p.source?,
      s.shared.state.budgets.get? source.id = some source :=
  budgets_of_interleaving sampleAllocation sampleAllocation_ok sampleTwoTransfers

/-- The second transfer overwrites what the first one has added. -/
theorem sampleTwoTransfers_total :
    periodTotal (budgetSessions.interleave (idleBudgets sampleAllocation)
        sampleTwoTransfers).shared.state (1, sampleDate) =
      periodTotal sampleAllocation (1, sampleDate) - 30 :=
  (total_of_interleaving sampleAllocation sampleAllocation_ok sampleTwoTransfers
    (1, sampleDate)).trans (by decide +kernel)

end Pfv
