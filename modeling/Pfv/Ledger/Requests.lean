import Pfv.Base.Run
import Pfv.Ledger.Growth
import Pfv.Ledger.Removal
import Pfv.Ledger.Transitions

/-!
# Runs of requests

The requests the services answer, each in its own database transaction: a request that fails is
rolled back. A run starts from a database without accounts, rows, templates and batches.

## Main definitions

* `Request`, `Request.step`: the operations of the services.
* `Db.Seeded`: a database before the first account.
* `Db.ReachableBy ok`: the databases reached by serving requests that satisfy `ok`.
* `sampleDb` and the sample requests: a small ledger for examples.

## Main results

* `Request.step_wellFormed`, `Db.ReachableBy.wellFormed`: every reachable database is well formed.
-/

namespace Pfv

/-! ### Requests -/

/-- The requests of the ledger services. `today` is the date at which a request is served. -/
inductive Request
  | createAccount (org : ℕ) (body : AccountCreate) (today : Date)
  | create (org : ℕ) (body : TransactionCreate) (isImported : Bool)
  | createNoCommit (org : ℕ) (body : TransactionCreate) (isImported isManualAdjustment : Bool)
      (fitid : Option String)
  | transfer (org : ℕ) (body : TransferCreate)
  | update (org id : ℕ) (body : TransactionUpdate) (today : Date)
  | delete (org id : ℕ)
  | bulkDelete (org : ℕ) (ids : List ℕ)
  | pair (org expenseTxId incomeTxId : ℕ) (recategorize : Bool) (transferCategoryId : Option ℕ)
  | convert (org sourceTxId destinationAccountId : ℕ) (recategorize : Bool)
      (transferCategoryId : Option ℕ)
  | unpair (org id expenseFallbackCategoryId incomeFallbackCategoryId : ℕ)
  | promote (org id : ℕ) (body : PromoteToRecurringRequest) (today : Date)
  | adjust (org accountId : ℕ) (body : BalanceAdjustmentRequest) (today : Date)
  | executeImport (org : ℕ) (body : ImportConfirmRequest) (userId : Option ℕ)
  | generateDue (org : ℕ) (today : Date)
  | createRecurring (org : ℕ) (body : RecurringCreate)
  | updateRecurring (org id : ℕ) (body : RecurringUpdate)
  | stopRecurring (org id : ℕ) (today : Date)
  | deleteRecurring (org id : ℕ) (today : Date)
  | reconcile (org batchId : ℕ) (body : ReconcileBatchRequest)

/-- Answer a request. -/
def Request.step (db : Db) : Request → Except ServiceError Db
  | .createAccount org body today => Pfv.createAccount db org body today
  | .create org body isImported => Prod.fst <$> createTransaction db org body isImported
  | .createNoCommit org body isImported isManualAdjustment fitid =>
      Prod.fst <$> createTransactionNoCommit db org body isImported isManualAdjustment fitid
  | .transfer org body => createTransfer db org body
  | .update org id body today => Prod.fst <$> updateTransaction db org id body today
  | .delete org id => deleteTransaction db org id
  | .bulkDelete org ids => Prod.fst <$> bulkDeleteTransactions db org ids
  | .pair org expenseTxId incomeTxId recategorize transferCategoryId =>
      pairExistingTransactions db org expenseTxId incomeTxId recategorize transferCategoryId
  | .convert org sourceTxId destinationAccountId recategorize transferCategoryId =>
      convertAndCreateLeg db org sourceTxId destinationAccountId recategorize transferCategoryId
  | .unpair org id expenseFallbackCategoryId incomeFallbackCategoryId =>
      unpairTransactions db org id expenseFallbackCategoryId incomeFallbackCategoryId
  | .promote org id body today => Prod.fst <$> promoteToRecurring db org id body today
  | .adjust org accountId body today =>
      Prod.fst <$> adjustAccountBalance db org accountId body today
  | .executeImport org body userId => Prod.fst <$> Pfv.executeImport db org body userId
  | .generateDue org today => generateDueTransactions db org today
  | .createRecurring org body => Pfv.createRecurring db org body
  | .updateRecurring org id body => Pfv.updateRecurring db org id body
  | .stopRecurring org id today => Pfv.stopRecurring db org id today
  | .deleteRecurring org id today => Pfv.deleteRecurring db org id today
  | .reconcile org batchId body => Prod.fst <$> reconcileRequest db org batchId body

/-- A database before the first account: it has account types and categories at most. -/
structure Db.Seeded (db : Db) : Prop where
  accounts : db.accounts.rows = []
  transactions : db.transactions.rows = []
  recurring : db.recurring.rows = []
  importBatches : db.importBatches.rows = []

/-- The databases reached from a seeded one by serving requests that satisfy `ok`, failed ones
rolled back. -/
def Db.ReachableBy (ok : Request → Prop) (db : Db) : Prop :=
  ∃ db₀ rs, db₀.Seeded ∧ (∀ r ∈ rs, ok r) ∧ serveAll Request.step db₀ rs = db

/-- Every request that only adds to the ledger. -/
def Request.Adds : Request → Prop
  | .update .. | .delete .. | .bulkDelete .. | .unpair .. | .stopRecurring ..
  | .deleteRecurring .. | .reconcile .. => False
  | _ => True

theorem map_fst_eq_ok {ε : Type*} {α β : Type} {x : Except ε (α × β)} {a : α} :
    Prod.fst <$> x = .ok a ↔ ∃ b, x = .ok (a, b) := by
  cases x with
  | error e => simp [Functor.map, Except.map]
  | ok p => simp [Functor.map, Except.map, Prod.ext_iff]

/-- The rows that requests post satisfy `P`. A flush has checked the row of a request, the
description of a transfer and the row of a template. -/
structure Db.Posts (db : Db) (P : Transaction → Prop) : Prop where
  created : ∀ (body : TransactionCreate) org imported manual fitid,
    (body.row org imported manual fitid).Flushable → P (body.row org imported manual fitid)
  leg : ∀ (body : TransferCreate) org account category description type,
    description.length ≤ 255 → P (body.leg org account category description type)
  partner : ∀ org dst id source, db.transaction? id org = some source →
    P (partnerLeg org dst source)
  generated : ∀ r : RecurringTransaction, r.row.Flushable → P r.row

namespace Request

variable {db db' : Db} {r : Request}

/-- A request that only adds to the ledger is any number of steps that do. -/
theorem step_growsMany {P : Transaction → Prop} (hwf : db.WellFormed) (hP : db.Posts P)
    (hadds : r.Adds) (h : step db r = .ok db') : db.GrowsMany P db' := by
  cases r with
  | update | delete | bulkDelete | unpair | stopRecurring | deleteRecurring | reconcile =>
    exact hadds.elim
  | createAccount org body today => exact createAccount_grows h
  | create org body imported =>
    obtain ⟨_, h⟩ := map_fst_eq_ok.mp h
    exact createTransactionNoCommit_grows (hP.created _ _ _ _ _) h
  | createNoCommit org body imported manual fitid =>
    obtain ⟨_, h⟩ := map_fst_eq_ok.mp h
    exact createTransactionNoCommit_grows (hP.created _ _ _ _ _) h
  | transfer org body => exact createTransfer_grows (fun account _ => hP.leg body org account) h
  | pair org e i recategorize cat => exact pairExistingTransactions_grows h
  | convert org source dst recategorize cat =>
    exact convertAndCreateLeg_grows hwf (hP.partner _ _ _) h
  | promote org id body today =>
    obtain ⟨_, h⟩ := map_fst_eq_ok.mp h
    exact promoteToRecurring_grows hwf h
  | adjust org account body today =>
    obtain ⟨_, h⟩ := map_fst_eq_ok.mp h
    exact adjustAccountBalance_grows (fun txBody _ => hP.created txBody _ _ _ _) h
  | executeImport org body user =>
    obtain ⟨_, h⟩ := map_fst_eq_ok.mp h
    exact executeImport_grows (fun txBody _ _ _ => hP.created txBody _ _ _ _) h
  | generateDue org today => exact generateDueTransactions_grows hwf (fun _ _ _ => hP.generated _) h
  | createRecurring org body => exact createRecurring_grows hwf h
  | updateRecurring org id body => exact updateRecurring_grows hwf h

theorem step_grows (hwf : db.WellFormed) (hadds : r.Adds) (h : step db r = .ok db') :
    db.GrowsMany (fun _ => True) db' :=
  step_growsMany hwf ⟨fun _ _ _ _ _ _ => trivial, fun _ _ _ _ _ _ _ => trivial,
    fun _ _ _ _ _ => trivial, fun _ _ => trivial⟩ hadds h

end Request

/-! ### Requests that rewrite or remove rows -/

namespace Db

variable {db : Db}

/-- Rewriting a row by a well-formed one keeps the ledger well formed. -/
theorem WellFormed.putTransaction (hwf : db.WellFormed) {t : Transaction} (ht : db.RowOk t) :
    (db.putTransaction t).WellFormed := by
  refine hwf.of_rows (.of_eq rfl) rfl fun j u hu => ?_
  rw [get?_putTransaction] at hu
  split_ifs at hu
  · obtain ⟨-, -, rfl⟩ := Option.map_eq_some_iff.mp hu
    exact ht.mono (.of_eq rfl) le_rfl
  · exact (hwf.row hu).mono (.of_eq rfl) le_rfl

theorem WellFormed.credit (hwf : db.WellFormed) (a : ℕ) (x : ℤ) : (db.credit a x).WellFormed :=
  hwf.of_transactions (keepsAccounts_credit db a x) rfl le_rfl rfl

theorem WellFormed.revise (hwf : db.WellFormed) {t t' : Transaction} (ht : db.RowOk t') :
    (db.revise t t').WellFormed :=
  ((hwf.credit _ _).putTransaction (ht.mono (keepsAccounts_credit db _ _) le_rfl)).credit _ _

theorem WellFormed.restate (hwf : db.WellFormed) {t t' : Transaction} (ht : db.RowOk t') :
    (db.restate t t').WellFormed :=
  (hwf.credit _ _).putTransaction (ht.mono (keepsAccounts_credit db _ _) le_rfl)

/-- Clearing dangling links keeps a row well formed. -/
theorem RowOk.unlinkFrom {t : Transaction} (ht : db.RowOk t) (ids : List ℕ) :
    db.RowOk (unlinkFrom ids t) := by
  rw [unlinkFrom_eq]
  exact ⟨ht.account, ht.amount, ht.type, ht.batch⟩

/-- Clearing a link keeps a row well formed. -/
theorem RowOk.unlink {t : Transaction} (ht : db.RowOk t) (categoryId : ℕ) :
    db.RowOk (t.unlink categoryId) :=
  ⟨ht.account, ht.amount, ht.type, ht.batch⟩

theorem WellFormed.deleteTransactions (hwf : db.WellFormed) (ids : List ℕ) :
    (db.deleteTransactions ids).WellFormed := by
  refine hwf.of_rows (.of_eq rfl) rfl fun j u hu => ?_
  obtain ⟨-, t, ht, rfl⟩ := get?_deleteTransactions_eq_some.mp hu
  exact ((hwf.row ht).unlinkFrom ids).mono (.of_eq rfl) le_rfl

theorem WellFormed.remove (hwf : db.WellFormed) (rows : List Transaction) :
    (db.remove rows).WellFormed := by
  refine WellFormed.deleteTransactions ?_ _
  exact hwf.of_transactions (keepsAccounts_revertAll rows db) (by rw [revertAll_eq])
    (by rw [revertAll_eq]) (by rw [revertAll_eq])

theorem WellFormed.deleteCascade (hwf : db.WellFormed) (tx : Transaction)
    (linkedTx : Option Transaction) : (db.deleteCascade tx linkedTx).WellFormed := by
  cases linkedTx with
  | none => exact hwf.remove [tx]
  | some p =>
    unfold Db.deleteCascade
    split_ifs
    · exact ((hwf.credit _ _).credit _ _).deleteTransactions _
    · exact hwf.deleteTransactions _

end Db

section

variable {db db' : Db} {org id : ℕ}

/-- The edited form of a well-formed row, on an account of its organisation. -/
theorem editTransaction_rowOk {tx : Transaction} {body : TransactionUpdate} {today : Date}
    (htx : db.RowOk tx)
    (hacc : (editTransaction tx body today).accountId = tx.accountId ∨
      ∃ acct, db.account? (editTransaction tx body today).accountId tx.orgId = some acct) :
    db.RowOk (editTransaction tx body today) where
  account := by
    rcases hacc with hsame | hnew
    · rw [hsame]
      exact htx.account
    · exact hnew
  amount := by
    cases hbody : body.amount with
    | none => simpa [editTransaction, hbody] using htx.amount
    | some a => simpa [editTransaction, hbody] using a.pos.le
  type := by
    cases hbody : body.type with
    | none => simpa [editTransaction, hbody] using htx.type
    | some e => simpa [editTransaction, hbody] using e.toTransactionType_ne_transfer
  batch := htx.batch

/-- The partner of an edited leg with the mirrored amount. -/
theorem mirrored_rowOk {p : Transaction} (hp : db.RowOk p) (amount : Amount) :
    db.RowOk { p with amount := amount.cents } :=
  ⟨hp.account, amount.pos.le, hp.type, hp.batch⟩

theorem updateTransaction_ok {body : TransactionUpdate} {today : Date} {edited : Transaction}
    (h : updateTransaction db org id body today = .ok (db', edited)) :
    ∃ ids, updateTransactionLocked db org id body today ids = .ok (db', edited) := by
  obtain ⟨ids, -, h⟩ := bind_eq_ok.mp h
  exact ⟨ids, h⟩

/-- An unpair unlinks a row and the row it links to. -/
theorem unpairTransactions_ok {expenseCategoryId incomeCategoryId : ℕ}
    (h : unpairTransactions db org id expenseCategoryId incomeCategoryId = .ok db') :
    ∃ tx linked e i, db.transaction? id org = some tx ∧ tx.linkedTransactionId = some linked ∧
      db.transactions.get? e.id = some e ∧ db.transactions.get? i.id = some i ∧
      e.orgId = org ∧ i.orgId = org ∧ e.type = .expense ∧ i.type = .income ∧
      (e.id = id ∧ i.id = linked ∨ e.id = linked ∧ i.id = id) ∧
      db' = (db.putTransaction (e.unlink expenseCategoryId)).putTransaction
        (i.unlink incomeCategoryId) := by
  unfold unpairTransactions unpairPreview at h
  simp only [bind_eq_ok, orRaise_eq_ok, pure_eq_ok] at h
  obtain ⟨linked, ⟨tx, htx, l, hl, -, -, -, -, -, -, -, -, -, -, -, -, rfl⟩, hlocked⟩ := h
  obtain ⟨e, i, h⟩ := unpairLocked_ok hlocked
  exact ⟨tx, l, e, i, htx, hl, h⟩

/-- Stopping a template changes the templates and removes the pending rows of the stopped one. -/
theorem stopRecurring_removes {P : Transaction → Prop} {today : Date} (hwf : db.WellFormed)
    (h : Pfv.stopRecurring db org id today = .ok db') :
    ∃ db₁, db.GrowsMany P db₁ ∧ db₁.transactions = db.transactions ∧
      (db₁.remove (pendingOfTemplate db org id today)).GrowsMany P db' := by
  obtain ⟨r, hr, rfl⟩ := stopRecurring_ok h
  obtain ⟨hok, -⟩ := recurring?_templateOk hwf hr
  have hput := put_template_ok hwf (r := { r with isActive := false }) ⟨hok.account, hok.amount⟩
  exact ⟨_, .single (.setTemplates db _ hput), rfl, .refl⟩

/-- Deleting a template removes its pending rows and detaches the others. -/
theorem deleteRecurring_removes {P : Transaction → Prop} {today : Date} (hwf : db.WellFormed)
    (h : Pfv.deleteRecurring db org id today = .ok db') :
    ∃ db₁, db.GrowsMany P db₁ ∧ db₁.transactions = db.transactions ∧
      (db₁.remove (pendingOfTemplate db org id today)).GrowsMany P db' := by
  obtain ⟨hf, rfl⟩ := deleteRecurring_ok h
  have hkeeps := Db.keepsAccounts_remove db (pendingOfTemplate db org id today)
  refine ⟨db, .refl, rfl, .head (.setTemplates _ (db.recurring.filter (·.id ≠ id)) fun x hx => ?_)
    (.single (.retemplate _ (Transaction.detachFrom id) hf fun t _ => ?_))⟩
  · exact (hwf.template x (List.mem_of_mem_filter hx)).mono hkeeps
  · unfold Transaction.detachFrom
    split_ifs <;> rfl

/-- A row of a batch of a well-formed ledger is not a manual adjustment. -/
theorem Db.WellFormed.manual_of_batch (hwf : db.WellFormed) {tx : Transaction} {b : ℕ}
    (htx : db.transaction? id org = some tx) (hb : tx.importBatchId = some b) :
    tx.isManualAdjustment = false :=
  ((hwf.row (Db.transaction?_self htx)).batch b hb).2

/-- A transition keeps a row well formed. -/
theorem Transitioned.rowOk {tr : ReconciliationTransition} {tx tx' : Transaction}
    (h : Transitioned tr tx tx') (htx : db.RowOk tx) : db.RowOk tx' where
  account := by
    rw [h.accountId_eq, h.orgId_eq]
    exact htx.account
  amount := by
    rcases h.amount_pos with heq | hpos
    · rw [heq]
      exact htx.amount
    · exact hpos.le
  type := by
    rw [h.type_eq]
    exact htx.type
  batch := by
    rw [h.batch_eq, h.manual_eq]
    exact htx.batch

/-- One item of a reconcile request in a well-formed ledger. -/
theorem reconcileOne_wellFormed {s s' : Db × ImportBatch} {tr : ReconciliationTransition}
    (hwf : s.1.WellFormed) (h : reconcileOne org s tr = .ok s') : s'.1.WellFormed := by
  obtain ⟨tx, htx, -, hself | ⟨-, -, tx', htr, rfl, -⟩⟩ :=
    reconcileOne_ok (fun tx htx hb => hwf.manual_of_batch htx hb) h
  · rw [hself.2]
    exact hwf
  · exact hwf.restate (htr.rowOk (hwf.row (Db.transaction?_self htx)))

theorem reconcileLoop_wellFormed {s s' : Db × ImportBatch} {trs : List ReconciliationTransition}
    (hwf : s.1.WellFormed) (h : trs.foldlM (reconcileOne org) s = .ok s') : s'.1.WellFormed :=
  foldlM_invariant (fun s => s.1.WellFormed)
    (fun _ _ _ hwf hone => reconcileOne_wellFormed hwf hone)
    trs s s' hwf h

end

namespace Request

variable {db db' : Db} {r : Request}

/-- Every request keeps the ledger well formed. -/
theorem step_wellFormed (hwf : db.WellFormed) (h : step db r = .ok db') : db'.WellFormed := by
  by_cases hadds : r.Adds
  · exact (step_grows hwf hadds h).wellFormed hwf
  cases r with
  | update org id body today =>
    obtain ⟨edited, h⟩ := map_fst_eq_ok.mp h
    obtain ⟨ids, h⟩ := updateTransaction_ok h
    obtain ⟨tx, htx, -, rfl, hacc, hcase⟩ := updateTransactionLocked_ok h
    have horg := (Db.transaction?_eq_some.mp htx).2
    have hedited : db.RowOk (editTransaction tx body today) :=
      editTransaction_rowOk (hwf.row (Db.transaction?_self htx)) (horg ▸ hacc)
    rcases hcase with ⟨-, rfl⟩ | ⟨p, hpair, ⟨-, -, rfl⟩ | ⟨amount, -, rfl⟩⟩
    · exact hwf.revise hedited
    · exact hwf.revise hedited
    · have hp := mirrored_rowOk (hwf.row (Db.transaction?_self hpair.partner_mem)) amount
      exact (hwf.revise hedited).revise (hp.mono (Db.keepsAccounts_revise db _ _) le_rfl)
  | delete org id =>
    obtain ⟨tx, -, -, rfl⟩ := deleteTransaction_ok h
    exact hwf.deleteCascade _ _
  | bulkDelete org ids =>
    obtain ⟨_, h⟩ := map_fst_eq_ok.mp h
    rcases bulkDeleteTransactions_ok h with rfl | rfl
    · exact hwf
    · exact hwf.remove _
  | unpair org id ec ic =>
    obtain ⟨_, _, e, i, -, -, he, hi, -, -, -, -, -, rfl⟩ := unpairTransactions_ok h
    have he' := (hwf.row he).unlink ec
    have hi' := (hwf.row hi).unlink ic
    exact (hwf.putTransaction he').putTransaction (hi'.mono (.of_eq rfl) le_rfl)
  | stopRecurring org id today =>
    obtain ⟨db₁, hgrow, -, hgrow'⟩ := stopRecurring_removes (P := fun _ => True) hwf h
    exact hgrow'.wellFormed ((hgrow.wellFormed hwf).remove _)
  | deleteRecurring org id today =>
    obtain ⟨db₁, hgrow, -, hgrow'⟩ := deleteRecurring_removes (P := fun _ => True) hwf h
    exact hgrow'.wellFormed ((hgrow.wellFormed hwf).remove _)
  | reconcile org batchId body =>
    obtain ⟨_, h⟩ := map_fst_eq_ok.mp h
    obtain ⟨batch, db₁, batch₁, -, hloop, rfl⟩ := reconcileRequest_ok h
    exact (reconcileLoop_wellFormed hwf hloop).of_transactions (.of_eq rfl) rfl le_rfl rfl
  | _ => exact absurd trivial hadds

end Request

/-! ### Reachable databases -/

theorem Db.Seeded.wellFormed {db : Db} (h : db.Seeded) : db.WellFormed where
  row ht := by
    have := Table.get?_mem ht
    simp [h.transactions] at this
  template r hr := by
    simp [h.recurring] at hr

/-- An invariant of seeded databases that every admitted request keeps holds of every reachable
database. -/
theorem Db.ReachableBy.induct {ok : Request → Prop} {I : Db → Prop} {db : Db}
    (hreach : db.ReachableBy ok) (hseeded : ∀ db, db.Seeded → I db)
    (hstep : ∀ db r db', db.WellFormed → I db → ok r → Request.step db r = .ok db' → I db') :
    I db := by
  obtain ⟨db₀, rs, hdb₀, hok, rfl⟩ := hreach
  have hadmits : Admits (fun _ r => ok r) Request.step db₀ rs :=
    admits_of_forall (fun _ _ h => h) rs db₀ hok
  refine (serveAll_invariant (I := fun db => db.WellFormed ∧ I db) ?_ rs
    ⟨hdb₀.wellFormed, hseeded db₀ hdb₀⟩ hadmits).2
  exact fun s r s' hs hr h => ⟨Request.step_wellFormed hs.1 h, hstep s r s' hs.1 hs.2 hr h⟩

theorem Db.ReachableBy.wellFormed {ok : Request → Prop} {db : Db} (h : db.ReachableBy ok) :
    db.WellFormed :=
  h.induct (fun _ hs => hs.wellFormed) fun _ _ _ hwf _ _ hstep => Request.step_wellFormed hwf hstep

/-! ### A sample ledger -/

def sampleDate : Date := .of 2024 1 1

/-- A seeded database with one account type and one category for income and expense. -/
def sampleDb : Db where
  accountTypes := ⟨[{ id := 1, orgId := 1, slug := none }], 2, by decide, by decide⟩
  accounts := .empty
  categories := ⟨[{ id := 1, orgId := 1, name := "General" }], 2, by decide, by decide⟩
  transactions := .empty
  recurring := .empty
  importBatches := .empty

theorem sampleDb_seeded : sampleDb.Seeded := ⟨rfl, rfl, rfl, rfl⟩

theorem noCloseDay_range : ∀ d ∈ (none : Option ℕ), 1 ≤ d ∧ d ≤ 28 := by simp

theorem zeroOpening_lower : (-10 ^ 12 : ℤ) < 0 := by decide

theorem zeroOpening_upper : (0 : ℤ) < 10 ^ 12 := by decide

def sampleAccount (name : String) : Request :=
  .createAccount 1
    { name := name, accountTypeId := 1, closeDay_range := noCloseDay_range
      lower := zeroOpening_lower, upper := zeroOpening_upper } sampleDate

def sampleDescription : Description := ⟨"Rent", by decide, by decide⟩

/-- 10.00. -/
def sampleAmount : Amount := ⟨1000, by decide, by decide⟩

theorem noSettledDate_le {date : Date} : ∀ d ∈ (none : Option Date), date ≤ d := by simp

/-- A row of 10.00 on an account. -/
def sampleCreate (account : ℕ) (type : EntryType) (status : TransactionStatus) : Request :=
  .create 1
    { accountId := account, categoryId := 1, description := sampleDescription
      amount := sampleAmount, type := type, status := status, date := sampleDate
      settledDate_le := noSettledDate_le } false

/-- A transfer of 10.00 from the first account to the second. -/
def sampleTransferBody : TransferCreate where
  fromAccountId := 1
  toAccountId := 2
  amount := sampleAmount
  date := sampleDate
  length_le := by decide

def sampleTransfer : Request := .transfer 1 sampleTransferBody

theorem sampleRow_pos : (0 : ℚ) < 10 := by norm_num

theorem sampleFileName_range : 1 ≤ "bank.csv".length ∧ "bank.csv".length ≤ 255 := by decide

/-- An import of rows of 10.00 each to an account. -/
def sampleImport (account : ℕ) (types : List EntryType) : Request :=
  .executeImport 1
    { accountId := account, defaultCategoryId := 1
      rows := types.map fun type =>
        { rowNumber := 1, date := sampleDate, description := "Rent", amount := 10, type := type
          amount_pos := sampleRow_pos }
      fileName := "bank.csv", sourceFormat := .csv, fileName_range := sampleFileName_range }
    (some 1)

/-- A reconcile request of one plain transition per row and state. -/
def sampleReconcile (transitions : List ReconciliationTransition) (h : transitions ≠ [])
    (h' : transitions.length ≤ 500) : Request :=
  .reconcile 1 1 ⟨transitions, h, h'⟩

/-- A reconcile request that puts one row in a state. -/
def sampleTransition (id : ℕ) (toState : ReconciliationState) : Request :=
  sampleReconcile [{ transactionId := id, toState := toState }] (by simp) (by simp)

/-- The second row is reopened and matched to the first. -/
def sampleMatch : Request :=
  sampleReconcile [{ transactionId := 2, toState := .pendingReview },
    { transactionId := 2, toState := .matched, matchWithTransactionId := some 1 }]
    (by decide) (by decide)

end Pfv
