import Pfv.Base.Schedule
import Pfv.Ledger.Requests

/-!
# Generating recurring transactions in several runs

A run of the generation drains the backlog of every active template of an organisation and leaves
each due after the date. What several runs generate together, and what they leave, is what one run
on the last date does, as long as the last run and that one go through: a run that takes a balance
out of its column is refused, and the order in which the rows are posted decides over that.

## Main definitions

* `templateSchedule`: the due dates of a template as a schedule.
* `Db.dueRows`: the rows the templates of an organisation generate on a date.
* `Db.generatedRows`: the rows one ledger has more than another, without their ids.
* `Db.PostsFit`: the posted rows leave the balances in their column.
* `generateOn`: the ledger after a run of the generation on each of several dates.

## Main results

* `generateDueTransactions_eq`, `generateDueTransactions_eq_ok`: what one run generates and leaves.
* `generateOn_ok`: what several runs have generated and left when the last goes through.
* `generation_path_independent`: several runs do what the last one does alone.
-/

namespace Pfv

/-! ### The backlog of a template -/

/-- A template falls due again and again. -/
def templateSchedule : Schedule RecurringTransaction where
  next r := { r with nextDueDate := advanceDate r.nextDueDate r.frequency }
  time r := r.nextDueDate.toOrdinal
  time_lt r := Date.lt_iff.mp (Date.lt_advanceDate r.nextDueDate r.frequency)

namespace RecurringTransaction

/-- The rows a template generates on a date. -/
def dueRows (today : Date) (r : RecurringTransaction) : List Transaction :=
  (templateSchedule.due today.toOrdinal r).map row

/-- The template due after a date. -/
def advanceTo (today : Date) (r : RecurringTransaction) : RecurringTransaction :=
  templateSchedule.rest today.toOrdinal r

/-- A template of an organisation that generates rows. -/
def Generates (org : ℕ) (r : RecurringTransaction) : Prop :=
  r.orgId = org ∧ r.isActive = true

instance (org : ℕ) (r : RecurringTransaction) : Decidable (r.Generates org) :=
  inferInstanceAs (Decidable (_ ∧ _))

/-- The template after a run for an organisation. -/
def afterRun (org : ℕ) (today : Date) (r : RecurringTransaction) : RecurringTransaction :=
  if r.Generates org then r.advanceTo today else r

variable {today today' : Date} {r : RecurringTransaction}

/-- A template moves in its due date alone. -/
theorem advanceTo_eq (today : Date) (r : RecurringTransaction) :
    r.advanceTo today = { r with nextDueDate := (r.advanceTo today).nextDueDate } := by
  refine Schedule.rest_induction (s := templateSchedule) (t := today.toOrdinal) (a := r)
    (p := fun x => x = { r with nextDueDate := x.nextDueDate }) (fun x hx => ?_) rfl
  rw [hx]
  rfl

@[simp] theorem advanceTo_id (today : Date) (r : RecurringTransaction) :
    (r.advanceTo today).id = r.id := by
  rw [advanceTo_eq]

theorem lt_advanceTo (today : Date) (r : RecurringTransaction) :
    today < (r.advanceTo today).nextDueDate :=
  Date.lt_iff.mpr (templateSchedule.lt_rest _ r)

theorem advanceTo_of_not_due (h : ¬r.nextDueDate ≤ today) : r.advanceTo today = r :=
  Schedule.rest_of_lt (Nat.lt_of_not_le h)

theorem dueRows_of_not_due (h : ¬r.nextDueDate ≤ today) : r.dueRows today = [] := by
  rw [dueRows, Schedule.due_of_lt (Nat.lt_of_not_le h), List.map_nil]

theorem advanceTo_of_due (h : r.nextDueDate ≤ today) :
    r.advanceTo today = (templateSchedule.next r).advanceTo today :=
  Schedule.rest_of_le h

theorem dueRows_of_due (h : r.nextDueDate ≤ today) :
    r.dueRows today = r.row :: (templateSchedule.next r).dueRows today := by
  rw [dueRows, Schedule.due_of_le h, List.map_cons, dueRows]

theorem advanceTo_advanceTo (h : today ≤ today') (r : RecurringTransaction) :
    (r.advanceTo today).advanceTo today' = r.advanceTo today' :=
  Schedule.rest_rest h r

theorem dueRows_append (h : today ≤ today') (r : RecurringTransaction) :
    r.dueRows today ++ (r.advanceTo today).dueRows today' = r.dueRows today' := by
  rw [dueRows, dueRows, ← List.map_append, advanceTo, Schedule.due_append h, dueRows]

@[simp] theorem generates_advanceTo {org : ℕ} :
    (r.advanceTo today).Generates org ↔ r.Generates org := by
  rw [advanceTo_eq, Generates, Generates]

@[simp] theorem generates_afterRun {org : ℕ} :
    (r.afterRun org today).Generates org ↔ r.Generates org := by
  unfold afterRun
  split_ifs with h
  · exact generates_advanceTo
  · rfl

@[simp] theorem afterRun_id (org : ℕ) (today : Date) (r : RecurringTransaction) :
    (r.afterRun org today).id = r.id := by
  unfold afterRun
  split_ifs
  · exact advanceTo_id today r
  · rfl

theorem afterRun_afterRun {org : ℕ} (h : today ≤ today') (r : RecurringTransaction) :
    (r.afterRun org today).afterRun org today' = r.afterRun org today' := by
  by_cases hr : r.Generates org
  · have hr' : (r.afterRun org today).Generates org := generates_afterRun.mpr hr
    rw [afterRun, if_pos hr', afterRun, if_pos hr, afterRun, if_pos hr, advanceTo_advanceTo h]
  · have hkeep : r.afterRun org today = r := if_neg hr
    rw [hkeep]

end RecurringTransaction

/-! ### Posting several rows -/

namespace Db

/-- Apply rows to the balances of their accounts. -/
def creditAll (db : Db) (rows : List Transaction) : Db :=
  rows.foldl (fun db t => db.credit t.accountId t.settledAmount) db

/-- Store rows and apply them to the balances of their accounts. -/
def postAll (db : Db) (rows : List Transaction) : Db :=
  rows.foldl post db

theorem creditAll_perm (db : Db) {rows rows' : List Transaction} (h : rows.Perm rows') :
    db.creditAll rows = db.creditAll rows' :=
  h.foldl_eq' (fun _ _ _ _ d => credit_comm d _ _ _ _) db

theorem creditAll_eq (rows : List Transaction) (db : Db) :
    db.creditAll rows = { db with accounts := (db.creditAll rows).accounts } := by
  unfold creditAll
  induction rows generalizing db with
  | nil => rfl
  | cons t rows ih =>
    rw [List.foldl_cons, ih]
    rfl

theorem creditAll_addTransaction (rows : List Transaction) (db : Db) (t : Transaction) :
    (db.addTransaction t).creditAll rows = (db.creditAll rows).addTransaction t := by
  unfold creditAll
  induction rows generalizing db with
  | nil => rfl
  | cons u rows ih => exact ih (db.credit u.accountId u.settledAmount)

/-- The credits and the new rows are independent of each other. -/
theorem postAll_eq (rows : List Transaction) (db : Db) :
    db.postAll rows =
      { db.creditAll rows with transactions := rows.foldl Table.insert db.transactions } := by
  induction rows generalizing db with
  | nil => rfl
  | cons t rows ih =>
    have hcons : db.postAll (t :: rows) = (db.post t).postAll rows := rfl
    rw [hcons, ih, post, creditAll_addTransaction]
    rfl

theorem postAll_append (db : Db) (rows rows' : List Transaction) :
    db.postAll (rows ++ rows') = (db.postAll rows).postAll rows' :=
  List.foldl_append

@[simp] theorem recurring_postAll (db : Db) (rows : List Transaction) :
    (db.postAll rows).recurring = db.recurring := by
  rw [postAll_eq, creditAll_eq]

theorem keepsAccounts_postAll (rows : List Transaction) (db : Db) :
    db.KeepsAccounts (db.postAll rows) := by
  unfold postAll
  induction rows generalizing db with
  | nil => exact .refl db
  | cons t rows ih => exact (keepsAccounts_post db t).trans (ih _)

/-- Store the templates. -/
def setTemplates (db : Db) (templates : Table RecurringTransaction) : Db :=
  { db with recurring := templates }

@[simp] theorem recurring_setTemplates (db : Db) (templates : Table RecurringTransaction) :
    (db.setTemplates templates).recurring = templates := rfl

/-- Posting rows does not read the templates. -/
theorem postAll_setTemplates (rows : List Transaction) (db : Db)
    (templates : Table RecurringTransaction) :
    (db.setTemplates templates).postAll rows = (db.postAll rows).setTemplates templates := by
  induction rows generalizing db with
  | nil => rfl
  | cons t rows ih => exact ih (db.post t)

/-! #### Within the range of the column -/

/-- Post a row. A settled row that takes the balance of its account out of its column is refused. -/
def postFitting (db : Db) (t : Transaction) : Except ServiceError Db := do
  raiseIf (t.status = .settled ∧ ¬(db.post t).BalanceFits t.accountId) (.database "accounts")
  pure (db.post t)

/-- Post rows one after the other, up to the first that is refused. -/
def postFittingAll (db : Db) (rows : List Transaction) : Except ServiceError Db :=
  rows.foldlM postFitting db

/-- Every settled row, posted in turn, leaves the balance of its account in its column. -/
def PostsFit : Db → List Transaction → Prop
  | _, [] => True
  | db, t :: rows =>
      (t.status = .settled → (db.post t).BalanceFits t.accountId) ∧ (db.post t).PostsFit rows

theorem postFitting_eq_ok {db db' : Db} {t : Transaction} :
    db.postFitting t = .ok db' ↔
      (t.status = .settled → (db.post t).BalanceFits t.accountId) ∧ db' = db.post t := by
  rw [postFitting, raiseIf_bind_eq_ok, pure_eq_ok, not_and, not_not, eq_comm (a := db')]

theorem postFittingAll_eq_ok {db db' : Db} {rows : List Transaction} :
    db.postFittingAll rows = .ok db' ↔ db.PostsFit rows ∧ db' = db.postAll rows := by
  unfold postFittingAll postAll
  induction rows generalizing db with
  | nil =>
    simp only [List.foldlM_nil, List.foldl_nil, PostsFit, true_and, pure_eq_ok]
    exact eq_comm
  | cons t rows ih =>
    simp only [List.foldlM_cons, bind_eq_ok, postFitting_eq_ok, ih, PostsFit, List.foldl_cons]
    constructor
    · rintro ⟨_, ⟨hfit, rfl⟩, hrest, rfl⟩
      exact ⟨⟨hfit, hrest⟩, rfl⟩
    · rintro ⟨⟨hfit, hrest⟩, rfl⟩
      exact ⟨_, ⟨hfit, rfl⟩, hrest, rfl⟩

/-- Rows are refused for no other reason. -/
theorem postFittingAll_eq_error {db : Db} {rows : List Transaction} {e : ServiceError}
    (h : db.postFittingAll rows = .error e) : e = .database "accounts" := by
  unfold postFittingAll at h
  induction rows generalizing db with
  | nil => cases h
  | cons t rows ih =>
    rw [List.foldlM_cons, bind_eq_error] at h
    rcases h with hpost | ⟨db₁, -, hrest⟩
    · rw [postFitting, bind_eq_error, raiseIf_eq_error] at hpost
      rcases hpost with ⟨-, rfl⟩ | ⟨_, -, hpure⟩
      · rfl
      · cases hpure
    · exact ih hrest

theorem postFittingAll_append (db : Db) (rows rows' : List Transaction) :
    db.postFittingAll (rows ++ rows') = db.postFittingAll rows >>= (·.postFittingAll rows') :=
  List.foldlM_append

/-- Posting rows does not read the templates. -/
theorem postFittingAll_setTemplates (rows : List Transaction) (db : Db)
    (templates : Table RecurringTransaction) :
    (db.setTemplates templates).postFittingAll rows =
      (·.setTemplates templates) <$> db.postFittingAll rows := by
  unfold postFittingAll
  induction rows generalizing db with
  | nil => rfl
  | cons t rows ih =>
    have hpost : (db.setTemplates templates).postFitting t =
        (·.setTemplates templates) <$> db.postFitting t := by
      rw [postFitting, postFitting, map_bind]
      rfl
    rw [List.foldlM_cons, List.foldlM_cons, map_bind, hpost, bind_map_left]
    exact bind_congr fun d => ih d

/-- The rows that one ledger has more than another, without their ids. -/
def generatedRows (db db' : Db) : Multiset Transaction :=
  ((db'.transactions.rows.filter fun t => db.transactions.next ≤ t.id).map
    fun t => { t with id := 0 } : List Transaction)

/-- The rows that posting stores are the rows that were posted. -/
theorem generatedRows_postAll (db : Db) (rows : List Transaction) :
    db.generatedRows (db.postAll rows) =
      ((rows.map fun t => { t with id := 0 } : List Transaction) : Multiset Transaction) := by
  -- The new rows stand after the old ones, whose ids are below the next.
  have hrows : ∀ (l : List Transaction) (T : Table Transaction), db.transactions.next ≤ T.next →
      ((l.foldl Table.insert T).rows.filter fun t => db.transactions.next ≤ t.id).map
        (fun t => ({ t with id := 0 } : Transaction)) =
      ((T.rows.filter fun t => db.transactions.next ≤ t.id).map
        fun t => ({ t with id := 0 } : Transaction)) ++ l.map fun t => { t with id := 0 } := by
    intro l
    induction l with
    | nil => intro T _; simp
    | cons t l ih =>
      intro T hT
      rw [List.foldl_cons, ih (T.insert t) (by simp; omega)]
      have hnew : (T.insert t).rows = T.rows ++ [{ t with id := T.next }] := rfl
      rw [hnew, List.filter_append, List.filter_cons_of_pos (by simpa using hT)]
      simp
  have hold : db.transactions.rows.filter (fun t => db.transactions.next ≤ t.id) = [] :=
    List.filter_eq_nil_iff.mpr fun t ht => by
      have hlt : t.id < db.transactions.next := db.transactions.fresh t ht
      simpa using hlt
  rw [generatedRows, postAll_eq, hrows rows db.transactions le_rfl, hold]
  rfl

end Db

/-! ### One run -/

/-- A template whose rows the database accepts but for the balance: it is on an account of its
organisation, as every request that stores a template checks, and its description and its amount fit
their columns, which are as wide as those of the rows. -/
structure Db.Accepts (db : Db) (r : RecurringTransaction) : Prop where
  account : ∃ acct, db.account? r.accountId r.orgId = some acct
  description : r.description.length ≤ 255
  amount : InColumn r.amount

variable {db db' : Db} {org : ℕ} {today : Date} {r : RecurringTransaction}

theorem Db.Accepts.mono (h : db.Accepts r) (hacc : db.KeepsAccounts db') : db'.Accepts r :=
  ⟨hacc.account? h.account, h.description, h.amount⟩

theorem generateOne_eq (hr : db.Accepts r) (horg : r.orgId = org) :
    generateOne db org r = db.postFitting r.row := by
  have hflush : r.row.Flushable := by
    refine ⟨fun hs => ?_, hr.description, hr.amount, rfl⟩
    cases h : r.autoSettle <;> simp [RecurringTransaction.row, h] at hs ⊢
  have hpost : postSettled db org r.row =
      .ok (db.credit r.row.accountId r.row.settledAmount) :=
    postSettled_eq_ok.mpr
      ⟨fun _ => ⟨horg ▸ hr.account, r.type.toTransactionType_ne_transfer⟩, rfl⟩
  have hinsert : insertTransaction (db.credit r.row.accountId r.row.settledAmount) r.row =
      .ok (db.post r.row, { r.row with id := db.transactions.next }) :=
    insertTransaction_eq_ok.mpr ⟨hflush, rfl, rfl⟩
  rw [generateOne, bind_of_ok hpost, insertPosted, hinsert, bind_assoc]
  rfl

/-- The loop over one template posts its due rows and ends with the template due later. -/
theorem generateLoop_eq {fuel : ℕ} (hr : db.Accepts r) (horg : r.orgId = org)
    (hfuel : dueDays today r ≤ fuel) :
    generateLoop org today fuel db r =
      (fun db' => (db', r.advanceTo today)) <$> db.postFittingAll (r.dueRows today) := by
  induction fuel generalizing db r with
  | zero =>
    have hlate : ¬r.nextDueDate ≤ today := by
      rw [Date.le_iff]
      unfold dueDays at hfuel
      omega
    rw [generateLoop, r.dueRows_of_not_due hlate, r.advanceTo_of_not_due hlate]
    rfl
  | succ fuel ih =>
    unfold generateLoop
    split_ifs with hdue
    · have hlater := Date.lt_iff.mp (Date.lt_advanceDate r.nextDueDate r.frequency)
      have hnext : (db.post r.row).Accepts (templateSchedule.next r) :=
        have hr' := hr.mono (Db.keepsAccounts_post db r.row)
        ⟨hr'.account, hr'.description, hr'.amount⟩
      have hfuel' : dueDays today (templateSchedule.next r) ≤ fuel := by
        rw [Date.le_iff] at hdue
        simp only [dueDays, templateSchedule] at hfuel ⊢
        omega
      rw [generateOne_eq hr horg, RecurringTransaction.dueRows_of_due hdue,
        RecurringTransaction.advanceTo_of_due hdue, Db.postFittingAll, List.foldlM_cons, map_bind]
      refine bind_congr_of_ok fun d hd => ?_
      rw [(Db.postFitting_eq_ok.mp hd).2]
      exact ih hnext horg hfuel'
    · rw [r.dueRows_of_not_due hdue, r.advanceTo_of_not_due hdue]
      rfl

theorem generateTemplate_eq (hr : db.Accepts r) (horg : r.orgId = org) :
    generateTemplate org today db r =
      (·.setTemplates (db.recurring.put (r.advanceTo today))) <$>
        db.postFittingAll (r.dueRows today) := by
  rw [generateTemplate, generateLoop_eq hr horg le_rfl, bind_map_left, map_eq_pure_bind]
  refine bind_congr_of_ok fun d hd => ?_
  rw [(Db.postFittingAll_eq_ok.mp hd).2, ← db.recurring_postAll (r.dueRows today)]
  rfl

/-- A run posts the due rows of its templates and moves each of them. -/
theorem foldlM_generateTemplate (today : Date) :
    ∀ (l : List RecurringTransaction) (db : Db),
      (∀ r ∈ l, db.Accepts r ∧ r.orgId = org) →
      l.foldlM (generateTemplate org today) db =
        (·.setTemplates (l.foldl (fun T r => T.put (r.advanceTo today)) db.recurring)) <$>
          db.postFittingAll (l.flatMap (·.dueRows today))
  | [], db, _ => rfl
  | r :: l, db, h => by
      obtain ⟨hr, horg⟩ := h r List.mem_cons_self
      rw [List.foldlM_cons, generateTemplate_eq hr horg, bind_map_left, List.flatMap_cons,
        Db.postFittingAll_append, map_bind]
      refine bind_congr_of_ok fun d hd => ?_
      obtain ⟨-, rfl⟩ := Db.postFittingAll_eq_ok.mp hd
      have hrest : ∀ r' ∈ l, ((db.postAll (r.dueRows today)).setTemplates
          (db.recurring.put (r.advanceTo today))).Accepts r' ∧ r'.orgId = org := fun r' hr' =>
        have h' := h r' (List.mem_cons_of_mem r hr')
        ⟨h'.1.mono ((Db.keepsAccounts_postAll _ db).trans (.of_eq rfl)), h'.2⟩
      rw [foldlM_generateTemplate today l _ hrest, Db.postFittingAll_setTemplates, ← comp_map]
      rfl

/-- The rows the templates of an organisation generate on a date. -/
def Db.dueRows (db : Db) (org : ℕ) (today : Date) : List Transaction :=
  (db.recurring.rows.filter (·.Generates org)).flatMap (·.dueRows today)

/-- The templates after a run. -/
def Db.templatesAfter (db : Db) (org : ℕ) (today : Date) : Table RecurringTransaction :=
  db.recurring.mapRows (·.afterRun org today) fun r => r.afterRun_id org today

/-- Every template of an organisation that generates rows is accepted. -/
def Db.AcceptsAll (db : Db) (org : ℕ) : Prop :=
  ∀ r ∈ db.recurring.rows, r.Generates org → db.Accepts r

/-- A run posts the due rows of every template, and leaves each due after the date. -/
theorem generateDueTransactions_eq (h : db.AcceptsAll org) (today : Date) :
    generateDueTransactions db org today =
      (·.setTemplates (db.templatesAfter org today)) <$>
        db.postFittingAll (db.dueRows org today) := by
  have hdue : ∀ r ∈ dueTemplates db org today, db.Accepts r ∧ r.orgId = org := by
    intro r hr
    obtain ⟨hmem, hr⟩ := List.mem_filter.mp hr
    obtain ⟨horg, hactive, -⟩ := of_decide_eq_true hr
    exact ⟨h r hmem ⟨horg, hactive⟩, horg⟩
  -- A template that is not due yet generates nothing and is left where it is.
  have hskip : ∀ l : List RecurringTransaction,
      (l.filter (·.nextDueDate ≤ today)).flatMap (·.dueRows today) =
        l.flatMap (·.dueRows today) := by
    intro l
    induction l with
    | nil => rfl
    | cons r l ih =>
      by_cases hdate : r.nextDueDate ≤ today
      · simp [hdate, ih]
      · simp [hdate, ih, r.dueRows_of_not_due hdate]
  have hrows : (dueTemplates db org today).flatMap (·.dueRows today) = db.dueRows org today := by
    refine Eq.trans ?_ (hskip (db.recurring.rows.filter fun r => r.Generates org))
    rw [dueTemplates, List.filter_filter]
    congr 2
    funext r
    rw [← Bool.decide_and]
    exact decide_eq_decide.mpr ⟨fun ⟨horg, hactive, hdate⟩ => ⟨hdate, horg, hactive⟩,
      fun ⟨hdate, horg, hactive⟩ => ⟨horg, hactive, hdate⟩⟩
  have htemplates : (dueTemplates db org today).foldl (fun T r => T.put (r.advanceTo today))
      db.recurring = db.templatesAfter org today := by
    rw [dueTemplates, Table.foldl_put_filter db.recurring _ (fun r => r.advanceTo_id today)
      fun r => by
      split_ifs
      · exact r.advanceTo_id today
      · rfl]
    refine Table.ext (List.map_congr_left fun r _ => ?_) rfl
    rw [RecurringTransaction.afterRun]
    by_cases hdate : r.nextDueDate ≤ today
    · simp only [hdate, and_true, decide_eq_true_eq]
      rfl
    · rw [r.advanceTo_of_not_due hdate, ite_self, ite_self]
  unfold generateDueTransactions
  rw [foldlM_generateTemplate today _ db hdue, hrows, htemplates]

/-- A run succeeds when every row it posts leaves the balance of its account in its column. -/
theorem generateDueTransactions_eq_ok (h : db.AcceptsAll org) :
    generateDueTransactions db org today = .ok db' ↔
      db.PostsFit (db.dueRows org today) ∧
        db' = (db.postAll (db.dueRows org today)).setTemplates (db.templatesAfter org today) := by
  rw [generateDueTransactions_eq h]
  refine Iff.trans map_eq_ok ?_
  constructor
  · rintro ⟨d, hd, rfl⟩
    obtain ⟨hfit, rfl⟩ := Db.postFittingAll_eq_ok.mp hd
    exact ⟨hfit, rfl⟩
  · rintro ⟨hfit, rfl⟩
    exact ⟨_, Db.postFittingAll_eq_ok.mpr ⟨hfit, rfl⟩, rfl⟩

/-- A run fails for no other reason. -/
theorem generateDueTransactions_eq_error (h : db.AcceptsAll org) {e : ServiceError}
    (hrun : generateDueTransactions db org today = .error e) : e = .database "accounts" := by
  rw [generateDueTransactions_eq h] at hrun
  cases hposts : db.postFittingAll (db.dueRows org today) with
  | error e' =>
    rw [hposts] at hrun
    cases hrun
    exact Db.postFittingAll_eq_error hposts
  | ok d =>
    rw [hposts] at hrun
    cases hrun

/-! ### Several runs -/

/-- The ledger after a run of the generation on each of several dates. A run that fails leaves it as
it was. -/
def generateOn (db : Db) (org : ℕ) (dates : List Date) : Db :=
  serveAll (fun db today => generateDueTransactions db org today) db dates

theorem generateOn_cons_of_ok {dates : List Date}
    (h : generateDueTransactions db org today = .ok db') :
    generateOn db org (today :: dates) = generateOn db' org dates :=
  have hserve : serve (fun db today => generateDueTransactions db org today) db today = db' :=
    serve_of_ok h
  congrArg (generateOn · org dates) hserve

theorem generateOn_cons_of_error {dates : List Date} {e : ServiceError}
    (h : generateDueTransactions db org today = .error e) :
    generateOn db org (today :: dates) = generateOn db org dates :=
  have hserve : serve (fun db today => generateDueTransactions db org today) db today = db :=
    serve_of_error h
  congrArg (generateOn · org dates) hserve

theorem Db.AcceptsAll.after (h : db.AcceptsAll org) (rows : List Transaction) (today : Date) :
    ((db.postAll rows).setTemplates (db.templatesAfter org today)).AcceptsAll org := by
  intro r' hr' hgen
  obtain ⟨r, hr, rfl⟩ := List.mem_map.mp hr'
  rw [RecurringTransaction.generates_afterRun] at hgen
  have hr' :=
    (h r hr hgen).mono ((db.keepsAccounts_postAll rows).trans (.of_eq rfl) : db.KeepsAccounts
      ((db.postAll rows).setTemplates (db.templatesAfter org today)))
  rw [RecurringTransaction.afterRun, if_pos hgen, r.advanceTo_eq]
  exact ⟨hr'.account, hr'.description, hr'.amount⟩

/-- Two runs generate the rows that one run on the later date generates. -/
theorem dueRows_perm {today' : Date} (hle : today ≤ today') (rows : List Transaction) :
    (db.dueRows org today ++
      ((db.postAll rows).setTemplates (db.templatesAfter org today)).dueRows org today').Perm
      (db.dueRows org today') := by
  have hmoved : ((db.postAll rows).setTemplates (db.templatesAfter org today)).dueRows org today' =
      (db.recurring.rows.filter (·.Generates org)).flatMap fun r =>
        (r.advanceTo today).dueRows today' := by
    show ((db.recurring.rows.map (RecurringTransaction.afterRun org today)).filter
      fun r => r.Generates org).flatMap (RecurringTransaction.dueRows today') = _
    rw [List.filter_map, List.flatMap_map]
    have hsame : (fun r : RecurringTransaction => decide (r.Generates org)) ∘
        RecurringTransaction.afterRun org today = fun r => decide (r.Generates org) := by
      funext r
      simp
    rw [hsame]
    refine List.flatMap_congr fun r hr => ?_
    rw [RecurringTransaction.afterRun, if_pos (of_decide_eq_true (List.mem_filter.mp hr).2)]
  rw [hmoved, Db.dueRows, Db.dueRows]
  refine (List.flatMap_append_perm _ _ _).trans (.of_eq (List.flatMap_congr fun r _ => ?_))
  exact r.dueRows_append hle

theorem templatesAfter_templatesAfter {today' : Date} (hle : today ≤ today')
    (rows : List Transaction) :
    ((db.postAll rows).setTemplates (db.templatesAfter org today)).templatesAfter org today' =
      db.templatesAfter org today' := by
  refine Table.ext (Eq.trans (List.map_map ..) (List.map_congr_left fun r _ => ?_)) rfl
  exact r.afterRun_afterRun hle

/-- Runs keep what the templates need. -/
theorem acceptsAll_generateOn :
    ∀ (dates : List Date) {db : Db}, db.AcceptsAll org → (generateOn db org dates).AcceptsAll org
  | [], _, h => h
  | today :: dates, db, h => by
      cases hrun : generateDueTransactions db org today with
      | error e =>
        rw [generateOn_cons_of_error hrun]
        exact acceptsAll_generateOn dates h
      | ok db₁ =>
        rw [generateOn_cons_of_ok hrun, ((generateDueTransactions_eq_ok h).mp hrun).2]
        exact acceptsAll_generateOn dates (h.after _ today)

/-- When the last of several runs goes through, they have posted the rows of the last date, in some
order, and have left the templates as the run on that date alone leaves them. -/
theorem generateOn_ok (last : Date) :
    ∀ (dates : List Date) {db several : Db}, db.AcceptsAll org →
      (dates ++ [last]).Pairwise (· ≤ ·) →
      generateDueTransactions (generateOn db org dates) org last = .ok several →
      ∃ rows, rows.Perm (db.dueRows org last) ∧
        several = (db.postAll rows).setTemplates (db.templatesAfter org last)
  | [], db, several, h, _, hlast =>
      ⟨_, .refl _, ((generateDueTransactions_eq_ok h).mp hlast).2⟩
  | today :: dates, db, several, h, hsorted, hlast => by
      obtain ⟨hfirst, hlater⟩ := List.pairwise_cons.mp hsorted
      have hle : today ≤ last := hfirst last (by simp)
      cases hrun : generateDueTransactions db org today with
      | error e =>
        rw [generateOn_cons_of_error hrun] at hlast
        exact generateOn_ok last dates h hlater hlast
      | ok db₁ =>
        rw [generateOn_cons_of_ok hrun, ((generateDueTransactions_eq_ok h).mp hrun).2] at hlast
        obtain ⟨rows, hperm, rfl⟩ :=
          generateOn_ok last dates (h.after (db.dueRows org today) today) hlater hlast
        refine ⟨db.dueRows org today ++ rows, ?_, ?_⟩
        · exact (hperm.append_left _).trans (dueRows_perm hle _)
        · rw [templatesAfter_templatesAfter hle, Db.postAll_setTemplates, Db.postAll_append]
          rfl

/-- A run right after a run on the same date generates nothing. -/
theorem generateDueTransactions_again (h : db.AcceptsAll org) (rows : List Transaction)
    (today : Date) :
    let after := (db.postAll rows).setTemplates (db.templatesAfter org today)
    generateDueTransactions after org today = .ok after := by
  intro after
  have hnone : after.dueRows org today = [] := by
    refine List.flatMap_eq_nil_iff.mpr fun r' hr' => ?_
    obtain ⟨hmem, hgen⟩ := List.mem_filter.mp hr'
    obtain ⟨r, -, rfl⟩ := List.mem_map.mp hmem
    have hr : r.Generates org := RecurringTransaction.generates_afterRun.mp (of_decide_eq_true hgen)
    refine RecurringTransaction.dueRows_of_not_due (Nat.not_le_of_lt ?_)
    rw [RecurringTransaction.afterRun, if_pos hr]
    exact r.lt_advanceTo today
  have hsame : after.templatesAfter org today = after.recurring :=
    templatesAfter_templatesAfter (Nat.le_refl today.toOrdinal) rows
  refine (generateDueTransactions_eq_ok (h.after rows today)).mpr ?_
  rw [hnone, hsame]
  exact ⟨trivial, rfl⟩

/-- Runs on several dates against one run on the last of them. A run goes through exactly when every
settled row it posts leaves the balance of its account in its column, and fails for no other reason;
with no dates before it, this is the single run. When the last run and the single one go through,
they end with the same rows, templates and balances. After the last run every active template of the
organisation is due later, and another run on the last date changes nothing. -/
structure PathIndependent (db : Db) (org : ℕ) (dates : List Date) (last : Date) : Prop where
  succeeds_iff : (∃ several, generateDueTransactions (generateOn db org dates) org last =
      .ok several) ↔
    (generateOn db org dates).PostsFit ((generateOn db org dates).dueRows org last)
  fails : ∀ e, generateDueTransactions (generateOn db org dates) org last = .error e →
    e = .database "accounts"
  same : ∀ several one,
    generateDueTransactions (generateOn db org dates) org last = .ok several →
    generateDueTransactions db org last = .ok one →
      db.generatedRows several = db.generatedRows one ∧ several.recurring = one.recurring ∧
        several.accounts = one.accounts
  again : ∀ several, generateDueTransactions (generateOn db org dates) org last = .ok several →
    generateDueTransactions several org last = .ok several
  later : ∀ several, generateDueTransactions (generateOn db org dates) org last = .ok several →
    ∀ r ∈ several.recurring.rows, r.orgId = org → r.isActive = true → last < r.nextDueDate

/-- A monthly template of 10.00 that is settled when it falls due. -/
def sampleTemplate : RecurringTransaction where
  id := 1
  orgId := 1
  accountId := 1
  categoryId := 1
  description := "Rent"
  amount := 1000
  type := .expense
  frequency := .monthly
  nextDueDate := sampleDate
  autoSettle := true

/-- A ledger with one account and the template. -/
def sampleTemplateDb : Db :=
  { sampleDb with
    accounts := ⟨[{ id := 1, orgId := 1, accountTypeId := 1, name := "Bank"
                    openingBalanceDate := sampleDate }], 2, by decide, by decide⟩
    recurring := ⟨[sampleTemplate], 2, by decide, by decide⟩ }

/-- In two months the template generates two rows. -/
example : (sampleTemplateDb.dueRows 1 (sampleDate.addMonths 1)).length = 2 := by decide

/-- A monthly income and a monthly expense of the largest amount the column holds. -/
def sampleOpposedDb : Db :=
  { sampleTemplateDb with
    recurring :=
      ⟨[{ sampleTemplate with type := .income, amount := 999999999999 },
        { sampleTemplate with id := 2, amount := 999999999999 }], 3, by decide, by decide⟩ }

end Pfv
