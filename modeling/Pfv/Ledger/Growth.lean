import Pfv.Ledger.Specs
import Pfv.Services.Import

/-!
# Operations that add to the ledger

Most operations of the services only add to the ledger: they open accounts, store categories and
templates, post new rows, link two unlinked rows, and stamp rows with a template or a batch.
`Db.Grows` has these steps and nothing else; whatever each of them keeps, every such operation
keeps. The operations that rewrite, unlink or remove rows are treated on their own.

## Main definitions

* `Db.WellFormed`: every row and every template is on an account of its organisation, amounts are
  not negative, and the batch of a row exists.
* `Db.Grows P`: one step that adds to the ledger, posting only rows that satisfy `P`.
* `Db.GrowsMany P`: any number of such steps.

## Main results

* `Db.Grows.wellFormed`, `Db.GrowsMany.induct`.
* `createTransactionNoCommit_grows`, `createTransfer_grows`, `pairExistingTransactions_grows`,
  `convertLocked_grows`, `promoteToRecurring_grows`, `adjustAccountBalance_grows`,
  `generateDueTransactions_grows`, `executeImport_grows`.
-/

namespace Pfv

namespace Db

/-! ### Well-formed ledgers -/

/-- A row is on an account of its organisation, its amount is not negative, it is income or
expense, and when it is in a batch, the batch exists and the row is not a manual adjustment. -/
structure RowOk (db : Db) (t : Transaction) : Prop where
  account : ∃ acct, db.account? t.accountId t.orgId = some acct
  amount : 0 ≤ t.amount
  type : t.type ≠ .transfer
  batch : ∀ b, t.importBatchId = some b →
    b < db.importBatches.next ∧ t.isManualAdjustment = false

/-- A template is on an account of its organisation and its amount is not negative. -/
structure TemplateOk (db : Db) (r : RecurringTransaction) : Prop where
  account : ∃ acct, db.account? r.accountId r.orgId = some acct
  amount : 0 ≤ r.amount

structure WellFormed (db : Db) : Prop where
  row : ∀ {i t}, db.transactions.get? i = some t → db.RowOk t
  template : ∀ r ∈ db.recurring.rows, db.TemplateOk r

theorem RowOk.mono {db db' : Db} {t : Transaction} (h : db.RowOk t) (hacc : db.KeepsAccounts db')
    (hbatch : db.importBatches.next ≤ db'.importBatches.next) : db'.RowOk t :=
  ⟨hacc.account? h.account, h.amount, h.type,
    fun b hb => ⟨(h.batch b hb).1.trans_le hbatch, (h.batch b hb).2⟩⟩

theorem TemplateOk.mono {db db' : Db} {r : RecurringTransaction} (h : db.TemplateOk r)
    (hacc : db.KeepsAccounts db') : db'.TemplateOk r :=
  ⟨hacc.account? h.account, h.amount⟩

/-- A change that keeps accounts and templates is well formed when the rows it leaves are. -/
theorem WellFormed.of_rows {db db' : Db} (h : db.WellFormed) (hacc : db.KeepsAccounts db')
    (hrec : db'.recurring = db.recurring)
    (hrow : ∀ i t, db'.transactions.get? i = some t → db'.RowOk t) : db'.WellFormed :=
  ⟨fun {i t} ht => hrow i t ht, fun r hr => (h.template r (hrec ▸ hr)).mono hacc⟩

/-- A change of the other tables keeps a ledger well formed. -/
theorem WellFormed.of_transactions {db db' : Db} (h : db.WellFormed) (hacc : db.KeepsAccounts db')
    (hrec : db'.recurring = db.recurring)
    (hbatch : db.importBatches.next ≤ db'.importBatches.next)
    (htransactions : db'.transactions = db.transactions) : db'.WellFormed :=
  h.of_rows hacc hrec fun _ _ ht => (h.row (htransactions ▸ ht)).mono hacc hbatch

end Db

/-- A version of a row that differs in its link, category, template and batch at most. -/
def Transaction.SameEntry (t t' : Transaction) : Prop :=
  t' = { t with
    linkedTransactionId := t'.linkedTransactionId, categoryId := t'.categoryId
    recurringId := t'.recurringId, importBatchId := t'.importBatchId }

theorem Transaction.SameEntry.trans {t t' t'' : Transaction} (h : t.SameEntry t')
    (h' : t'.SameEntry t'') : t.SameEntry t'' := by
  unfold SameEntry at *
  rw [h', h]

theorem sameEntry_linkTo (t : Transaction) (id : ℕ) (cat : Option ℕ) :
    t.SameEntry (t.linkTo id cat) := rfl

theorem sameEntry_unlink (t : Transaction) (cat : ℕ) : t.SameEntry (t.unlink cat) := rfl

/-- A row as it is first stored: unlinked, outside any batch and accepted. -/
structure Transaction.IsNew (t : Transaction) : Prop where
  link : t.linkedTransactionId = none
  batch : t.importBatchId = none
  state : t.reconciliationState = .accepted

namespace Db

/-! ### Steps that add to the ledger -/

/-- One step that adds to the ledger and posts only rows that satisfy `P`. -/
inductive Grows (P : Transaction → Prop) : Db → Db → Prop
  | openAccount (db : Db) (a : Account) (h : a.balance = a.openingBalance)
      (hactive : a.isActive = true) :
      Grows P db { db with accounts := db.accounts.insert a }
  | addCategory (db : Db) (c : Category) : Grows P db (db.addCategory c)
  | setTemplates (db : Db) (r : Table RecurringTransaction) (h : ∀ x ∈ r.rows, db.TemplateOk x) :
      Grows P db { db with recurring := r }
  | post (db : Db) (t : Transaction) (hrow : db.RowOk t) (hnew : t.IsNew) (hP : P t) :
      Grows P db (db.post t)
  | link (db : Db) (e i : Transaction) (cat : Option ℕ) (h : db.Linkable e i) :
      Grows P db (db.linkRows e i cat)
  | retemplate (db : Db) (f : Transaction → Transaction) (hf)
      (h : ∀ t ∈ db.transactions.rows, f t = { t with recurringId := (f t).recurringId }) :
      Grows P db { db with transactions := db.transactions.mapRows f hf }
  | openBatch (db : Db) (ids : List ℕ) (org : ℕ) (b : ImportBatch) (hf)
      (h : ∀ i ∈ ids, ∀ t, db.transaction? i org = some t → t.isManualAdjustment = false) :
      Grows P db
        { db with
          importBatches := db.importBatches.insert b
          transactions := db.transactions.mapRows
            (Transaction.assignBatch ids org db.importBatches.next) hf }

/-- Any number of steps that add to the ledger. -/
abbrev GrowsMany (P : Transaction → Prop) : Db → Db → Prop :=
  Relation.ReflTransGen (Grows P)

theorem get?_linkRows {db : Db} {e i : Transaction} (h : db.Linkable e i) (cat : Option ℕ)
    (j : ℕ) :
    (db.linkRows e i cat).transactions.get? j =
      if j = e.id then some (e.linkTo i.id cat)
      else if j = i.id then some (i.linkTo e.id cat) else db.transactions.get? j := by
  have he : (e.linkTo i.id cat).id = e.id := rfl
  have hi : (i.linkTo e.id cat).id = i.id := rfl
  rw [linkRows, get?_putTransaction, get?_putTransaction, he, hi]
  split_ifs with hji hje hje
  · exact absurd (hje.symm.trans hji) h.id_ne
  · rw [hji, h.income_mem, Option.map_some]
  · rw [hje, h.expense_mem, Option.map_some]
  · rfl

theorem assignBatch_eq (ids : List ℕ) (org b : ℕ) (t : Transaction) :
    t.assignBatch ids org b =
      { t with importBatchId := (t.assignBatch ids org b).importBatchId } := by
  unfold Transaction.assignBatch
  split_ifs <;> rfl

theorem keepsAccounts_openAccount (db : Db) (a : Account) :
    db.KeepsAccounts { db with accounts := db.accounts.insert a } :=
  fun _ acct h => ⟨acct, Table.get?_insert_of_some a h, rfl, rfl, rfl⟩

namespace Grows

variable {P : Transaction → Prop} {db db' : Db}

theorem keepsAccounts (h : Grows P db db') : db.KeepsAccounts db' := by
  cases h with
  | openAccount a h => exact keepsAccounts_openAccount db a
  | post t => exact keepsAccounts_post db t
  | addCategory | setTemplates | link | retemplate | openBatch => exact .of_eq rfl

theorem importBatches_next_le (h : Grows P db db') :
    db.importBatches.next ≤ db'.importBatches.next := by
  cases h with
  | openBatch => exact Nat.le_succ _
  | openAccount | addCategory | setTemplates | post | link | retemplate => exact le_rfl

/-- Adding to the ledger keeps every row, with its account, type, amount, status and dates. -/
theorem keepsRow (h : Grows P db db') {j : ℕ} {t : Transaction}
    (ht : db.transactions.get? j = some t) :
    ∃ t', db'.transactions.get? j = some t' ∧ t.SameEntry t' := by
  cases h with
  | openAccount | addCategory | setTemplates => exact ⟨t, ht, rfl⟩
  | post u => exact ⟨t, Table.get?_insert_of_some u ht, rfl⟩
  | link e i cat h =>
    rw [get?_linkRows h]
    split_ifs with he hi
    · rw [he, h.expense_mem, Option.some_inj] at ht
      exact ⟨_, rfl, ht ▸ rfl⟩
    · rw [hi, h.income_mem, Option.some_inj] at ht
      exact ⟨_, rfl, ht ▸ rfl⟩
    · exact ⟨t, ht, rfl⟩
  | retemplate f hf h =>
    refine ⟨f t, by rw [Table.get?_mapRows, ht, Option.map_some], ?_⟩
    rw [h t (Table.get?_mem ht)]
    rfl
  | openBatch ids org b hf =>
    refine ⟨t.assignBatch ids org db.importBatches.next, by
      rw [Table.get?_mapRows, ht, Option.map_some], ?_⟩
    rw [assignBatch_eq]
    rfl

/-- Every row after a step is a version of a row before it or was posted by it. -/
theorem row_cases (h : Grows P db db') {j : ℕ} {t' : Transaction}
    (ht' : db'.transactions.get? j = some t') :
    (∃ t, db.transactions.get? j = some t ∧ t.SameEntry t') ∨
      ∃ t, P t ∧ t' = { t with id := db.transactions.next } := by
  cases h with
  | openAccount | addCategory | setTemplates => exact .inl ⟨t', ht', rfl⟩
  | post t hrow hnew hP =>
    rw [get?_post] at ht'
    split_ifs at ht'
    · exact .inr ⟨t, hP, (Option.some_inj.mp ht').symm⟩
    · exact .inl ⟨t', ht', rfl⟩
  | link e i cat h =>
    rw [get?_linkRows h] at ht'
    split_ifs at ht' with he hi
    · rw [← Option.some_inj.mp ht', he]
      exact .inl ⟨e, h.expense_mem, rfl⟩
    · rw [← Option.some_inj.mp ht', hi]
      exact .inl ⟨i, h.income_mem, rfl⟩
    · exact .inl ⟨t', ht', rfl⟩
  | retemplate f hf h =>
    rw [Table.get?_mapRows, Option.map_eq_some_iff] at ht'
    obtain ⟨t, ht, rfl⟩ := ht'
    refine .inl ⟨t, ht, ?_⟩
    rw [h t (Table.get?_mem ht)]
    rfl
  | openBatch ids org b hf =>
    rw [Table.get?_mapRows, Option.map_eq_some_iff] at ht'
    obtain ⟨t, ht, rfl⟩ := ht'
    refine .inl ⟨t, ht, ?_⟩
    rw [assignBatch_eq]
    rfl

theorem wellFormed (h : Grows P db db') (hwf : db.WellFormed) : db'.WellFormed := by
  have hacc := h.keepsAccounts
  have hbatch := h.importBatches_next_le
  cases h with
  | openAccount => exact hwf.of_transactions hacc rfl hbatch rfl
  | addCategory => exact hwf.of_transactions hacc rfl hbatch rfl
  | setTemplates r h =>
    exact ⟨fun ht => (hwf.row ht).mono hacc hbatch, fun x hx => (h x hx).mono hacc⟩
  | post t hrow =>
    refine hwf.of_rows hacc rfl fun j u hu => ?_
    rw [get?_post] at hu
    split_ifs at hu with hj
    · rw [← Option.some_inj.mp hu]
      have := hrow.mono hacc hbatch
      exact ⟨this.account, this.amount, this.type, this.batch⟩
    · exact (hwf.row hu).mono hacc hbatch
  | link e i cat h =>
    refine hwf.of_rows hacc rfl fun j u hu => ?_
    rw [get?_linkRows h] at hu
    have he := (hwf.row h.expense_mem).mono hacc hbatch
    have hi := (hwf.row h.income_mem).mono hacc hbatch
    split_ifs at hu
    · rw [← Option.some_inj.mp hu]
      exact ⟨he.account, he.amount, he.type, he.batch⟩
    · rw [← Option.some_inj.mp hu]
      exact ⟨hi.account, hi.amount, hi.type, hi.batch⟩
    · exact (hwf.row hu).mono hacc hbatch
  | retemplate f hf h =>
    refine hwf.of_rows hacc rfl fun j u hu => ?_
    rw [Table.get?_mapRows, Option.map_eq_some_iff] at hu
    obtain ⟨t, ht, rfl⟩ := hu
    have hok := (hwf.row ht).mono hacc hbatch
    rw [h t (Table.get?_mem ht)]
    exact ⟨hok.account, hok.amount, hok.type, hok.batch⟩
  | openBatch ids org b hf h =>
    refine hwf.of_rows hacc rfl fun j u hu => ?_
    rw [Table.get?_mapRows, Option.map_eq_some_iff] at hu
    obtain ⟨t, ht, rfl⟩ := hu
    have hok := (hwf.row ht).mono hacc hbatch
    unfold Transaction.assignBatch
    split_ifs with hids
    · refine ⟨hok.account, hok.amount, hok.type, ?_⟩
      rintro c ⟨rfl⟩
      exact ⟨Nat.lt_succ_self _,
        h t.id hids.1 t (transaction?_eq_some.mpr ⟨Table.get?_self ht, hids.2⟩)⟩
    · exact hok

end Grows

namespace GrowsMany

variable {P : Transaction → Prop} {db db' : Db}

theorem of_mayAddCategory (h : db.MayAddCategory db') : db.GrowsMany P db' := by
  rcases h with rfl | ⟨c, rfl⟩
  · exact .refl
  · exact .single (.addCategory db c)

/-- What every single step keeps, any number of steps keeps. -/
theorem induct {I : Db → Prop} (hstep : ∀ {db db'}, I db → Grows P db db' → I db')
    (h : db.GrowsMany P db') (hI : I db) : I db' := by
  induction h with
  | refl => exact hI
  | tail _ hgrow ih => exact hstep ih hgrow

theorem wellFormed (h : db.GrowsMany P db') (hwf : db.WellFormed) : db'.WellFormed :=
  h.induct (fun hwf hgrow => hgrow.wellFormed hwf) hwf

theorem keepsAccounts (h : db.GrowsMany P db') : db.KeepsAccounts db' :=
  h.induct (fun hk hgrow => hk.trans hgrow.keepsAccounts) (.refl db)

theorem keepsRow (h : db.GrowsMany P db') {j : ℕ} {t : Transaction}
    (ht : db.transactions.get? j = some t) :
    ∃ t', db'.transactions.get? j = some t' ∧ t.SameEntry t' := by
  induction h with
  | refl => exact ⟨t, ht, rfl⟩
  | tail _ hgrow ih =>
    obtain ⟨t', ht', hsame⟩ := ih
    obtain ⟨t'', ht'', hsame'⟩ := hgrow.keepsRow ht'
    exact ⟨t'', ht'', hsame.trans hsame'⟩

end GrowsMany

end Db

/-! ### The operations -/

section Operations

variable {P : Transaction → Prop} {db db' : Db} {org : ℕ}

theorem TransactionCreate.isNew_row (body : TransactionCreate) (org : ℕ) (imported manual : Bool)
    (fitid : Option String) : (body.row org imported manual fitid).IsNew :=
  ⟨rfl, rfl, rfl⟩

theorem EntryType.toTransactionType_ne_transfer (e : EntryType) :
    e.toTransactionType ≠ .transfer := by
  cases e <;> simp [EntryType.toTransactionType]

/-- The row of a request on an account of the organisation is well formed. -/
theorem TransactionCreate.rowOk {body : TransactionCreate}
    (h : ∃ acct, db.account? body.accountId org = some acct) (imported manual : Bool)
    (fitid : Option String) : db.RowOk (body.row org imported manual fitid) :=
  ⟨h, body.amount.pos.le, body.type.toTransactionType_ne_transfer, by
    intro b hb
    simp [TransactionCreate.row] at hb⟩

theorem createTransactionNoCommit_grows {body : TransactionCreate} {imported manual : Bool}
    {fitid : Option String} {tx : Transaction}
    (hP : (body.row org imported manual fitid).Flushable → P (body.row org imported manual fitid))
    (h : createTransactionNoCommit db org body imported manual fitid = .ok (db', tx)) :
    db.GrowsMany P db' := by
  have hflush := createTransactionNoCommit_flushable h
  obtain ⟨hacct, rfl, -⟩ := createTransactionNoCommit_ok h
  exact .single (.post db _ (body.rowOk hacct _ _ _) (body.isNew_row _ _ _ _) (hP hflush))

theorem createAccount_grows {body : AccountCreate} {today : Date}
    (h : createAccount db org body today = .ok db') : db.GrowsMany P db' := by
  rw [createAccount_ok h]
  exact .single (.openAccount db _ rfl rfl)

theorem linkRows_grows {db₁ : Db} {e i : Transaction} {cat : Option ℕ} (h : db.Linkable e i)
    (hcat : db.MayAddCategory db₁) : db.GrowsMany P (db₁.linkRows e i cat) := by
  refine .tail (Db.GrowsMany.of_mayAddCategory hcat)
    (.link db₁ e i cat (h.congr hcat.transactions fun k => ?_))
  rw [Db.currencyOf, hcat.accounts, Db.currencyOf]

theorem adjustAccountBalance_grows {accountId : ℕ} {body : BalanceAdjustmentRequest}
    {today : Date} {tx : Transaction}
    (hP : ∀ txBody : TransactionCreate, txBody.accountId = accountId →
      (txBody.row org false true none).Flushable → P (txBody.row org false true none))
    (h : adjustAccountBalance db org accountId body today = .ok (db', tx)) :
    db.GrowsMany P db' := by
  obtain ⟨db₁, txBody, hcat, hacct, hid, hflush, rfl, -⟩ := adjustAccountBalance_ok h
  exact .tail (Db.GrowsMany.of_mayAddCategory hcat)
    (.post db₁ _ (txBody.rowOk (hid ▸ hacct) _ _ _) (txBody.isNew_row _ _ _ _)
      (hP txBody hid hflush))

theorem pairExistingTransactions_grows {expenseTxId incomeTxId : ℕ} {recategorize : Bool}
    {id : Option ℕ}
    (h : pairExistingTransactions db org expenseTxId incomeTxId recategorize id = .ok db') :
    db.GrowsMany P db' := by
  obtain ⟨e, i, db₁, cat, -, -, hlink, hcat, rfl⟩ := pairExistingTransactions_ok h
  exact linkRows_grows hlink hcat

/-- The partner leg of a row is well formed when the row is. -/
theorem partnerLeg_rowOk (hwf : db.WellFormed) {destinationAccountId sourceTxId : ℕ}
    {source : Transaction} (hsource : db.transaction? sourceTxId org = some source)
    (hdst : ∃ acct, db.account? destinationAccountId org = some acct) :
    db.RowOk (partnerLeg org destinationAccountId source) :=
  ⟨hdst, (hwf.row (Db.transaction?_self hsource)).amount, by
    unfold partnerLeg
    split_ifs <;> simp, by simp [partnerLeg]⟩

theorem convertLocked_grows (hwf : db.WellFormed) {sourceTxId destinationAccountId : ℕ}
    {recategorize : Bool} {id : Option ℕ}
    (hP : ∀ source, db.transaction? sourceTxId org = some source →
      P (partnerLeg org destinationAccountId source))
    (h : convertLocked db org sourceTxId destinationAccountId recategorize id = .ok db') :
    db.GrowsMany P db' := by
  obtain ⟨source, e, i, db₁, cat, hsource, -, hdst, hlink, -, hcat, rfl⟩ := convertLocked_ok h
  exact .head (.post db _ (partnerLeg_rowOk hwf hsource hdst) ⟨rfl, rfl, rfl⟩ (hP source hsource))
    (linkRows_grows hlink hcat)

theorem convertAndCreateLeg_grows (hwf : db.WellFormed) {sourceTxId destinationAccountId : ℕ}
    {recategorize : Bool} {id : Option ℕ}
    (hP : ∀ source, db.transaction? sourceTxId org = some source →
      P (partnerLeg org destinationAccountId source))
    (h : convertAndCreateLeg db org sourceTxId destinationAccountId recategorize id = .ok db') :
    db.GrowsMany P db' :=
  convertLocked_grows hwf hP (unit_bind_eq_ok.mp h).2

theorem createTransfer_grows {body : TransferCreate}
    (hP : ∀ account ∈ [body.fromAccountId, body.toAccountId], ∀ category description type,
      description.length ≤ 255 → P (body.leg org account category description type))
    (h : createTransfer db org body = .ok db') : db.GrowsMany P db' := by
  obtain ⟨db₁, category, description, e, i, hlength, hcat, hfrom, hto, hlink, rfl⟩ :=
    createTransfer_ok h
  have hcat' : db.KeepsAccounts db₁ := .of_eq hcat.accounts
  have hleg : ∀ (d : Db), ∀ a ∈ [body.fromAccountId, body.toAccountId], ∀ ty : TransactionType,
      ty ≠ .transfer → (∃ acct, d.account? a org = some acct) →
      Db.Grows P d (d.post (body.leg org a category description ty)) := fun d a ha ty hty hacct =>
    .post d _ ⟨hacct, body.amount.pos.le, hty, by simp [TransferCreate.leg]⟩ ⟨rfl, rfl, rfl⟩
      (hP a ha _ _ _ hlength)
  have hfirst := hleg db₁ body.fromAccountId (by simp) .expense (by simp) (hcat'.account? hfrom)
  have hsecond := hleg _ body.toAccountId (by simp) .income (by simp)
    (hfirst.keepsAccounts.account? (hcat'.account? hto))
  exact (((Db.GrowsMany.of_mayAddCategory hcat).tail hfirst).tail hsecond).tail
    (.link _ e i none hlink)

/-! ### Templates -/

theorem createRecurring_grows (hwf : db.WellFormed) {body : RecurringCreate}
    (h : createRecurring db org body = .ok db') : db.GrowsMany P db' := by
  unfold createRecurring at h
  simp only [↓unit_bind_eq_ok, validateAccount_eq_ok, pure_eq_ok] at h
  obtain ⟨hacct, -, -, rfl⟩ := h
  refine .single (.setTemplates db _ fun x hx => ?_)
  rcases List.mem_append.mp hx with hx | hx
  · exact hwf.template x hx
  · rw [List.mem_singleton.mp hx]
    exact ⟨hacct, body.amount_nonneg⟩

/-- Replacing a template by one on an account of its organisation keeps the templates. -/
theorem put_template_ok (hwf : db.WellFormed) {r : RecurringTransaction} (hr : db.TemplateOk r) :
    ∀ x ∈ (db.recurring.put r).rows, db.TemplateOk x := by
  intro x hx
  obtain ⟨y, hy, rfl⟩ := List.mem_map.mp hx
  split_ifs
  · exact hr
  · exact hwf.template y hy

theorem recurring?_templateOk (hwf : db.WellFormed) {id : ℕ} {r : RecurringTransaction}
    (h : db.recurring? id org = some r) : db.TemplateOk r ∧ r.orgId = org := by
  simp only [Db.recurring?, Option.filter_eq_some_iff, decide_eq_true_eq] at h
  exact ⟨hwf.template r (Table.get?_mem h.1), h.2⟩

theorem updateRecurring_grows (hwf : db.WellFormed) {id : ℕ} {body : RecurringUpdate}
    (h : updateRecurring db org id body = .ok db') : db.GrowsMany P db' := by
  unfold updateRecurring at h
  simp only [bind_eq_ok, orRaise_eq_ok] at h
  obtain ⟨r, hr, h⟩ := h
  obtain ⟨hok, horg⟩ := recurring?_templateOk hwf hr
  have hamount : 0 ≤ (editRecurring r body).amount := by
    cases hbody : body.amount with
    | none => simpa [editRecurring, hbody] using hok.amount
    | some a => simpa [editRecurring, hbody] using body.amount_nonneg a hbody
  have hacct : ∃ acct, db.account? (editRecurring r body).accountId
      (editRecurring r body).orgId = some acct := by
    cases hbody : body.accountId with
    | none => simpa [editRecurring, hbody] using hok.account
    | some a =>
      simp only [hbody, ↓unit_bind_eq_ok, validateAccount_eq_ok] at h
      simpa [editRecurring, hbody, horg] using h.1
  have hdb : db' = { db with recurring := db.recurring.put (editRecurring r body) } := by
    cases hbody : body.accountId <;>
      simp only [hbody, ↓unit_bind_eq_ok] at h <;> split_ifs at h <;>
      simp only [↓unit_bind_eq_ok, pure_eq_ok] at h <;> simp_all
  rw [hdb]
  exact .single (.setTemplates db _ (put_template_ok hwf ⟨hacct, hamount⟩))

/-- A promotion stores a template and stamps the row with it. -/
theorem promoteToRecurring_grows (hwf : db.WellFormed) {id : ℕ}
    {body : PromoteToRecurringRequest} {today : Date} {tx : Transaction}
    (h : promoteToRecurring db org id body today = .ok (db', tx)) : db.GrowsMany P db' := by
  unfold promoteToRecurring at h
  simp only [↓unit_bind_eq_ok, bind_eq_ok, orRaise_eq_ok, saveTransaction_eq_ok, pure_eq_ok,
    Prod.mk.injEq] at h
  obtain ⟨-, row, hrow, -, -, -, type, -, db₁, ⟨-, rfl⟩, rfl, -⟩ := h
  obtain ⟨-, horg⟩ := Db.transaction?_eq_some.mp hrow
  have hok := hwf.row (Db.transaction?_self hrow)
  refine .head (.setTemplates db _ fun x hx => ?_) (.single (.retemplate _ _ _ fun t ht => ?_))
  · rcases List.mem_append.mp hx with hx | hx
    · exact hwf.template x hx
    · rw [List.mem_singleton.mp hx]
      exact ⟨horg ▸ hok.account, hok.amount⟩
  · split_ifs with hid
    · have : row = t := Table.get?_inj (Db.transaction?_self hrow) (Table.get?_of_mem ht) hid.symm
      rw [this]
    · rfl

/-! ### Generation -/

/-- The row a template generates is well formed when the template is. -/
theorem RecurringTransaction.rowOk {r : RecurringTransaction} (hr : db.TemplateOk r) :
    db.RowOk r.row :=
  ⟨hr.account, hr.amount, r.type.toTransactionType_ne_transfer, by
    intro b hb
    simp [RecurringTransaction.row] at hb⟩

theorem generateOne_ok {r : RecurringTransaction} (h : generateOne db org r = .ok db') :
    r.row.Flushable ∧ db' = db.post r.row := by
  unfold generateOne at h
  simp only [bind_eq_ok, postSettled_eq_ok, Prod.exists, insertPosted_eq_ok, pure_eq_ok] at h
  obtain ⟨_, ⟨-, rfl⟩, _, _, ⟨-, hflush, rfl, -⟩, rfl⟩ := h
  exact ⟨hflush, rfl⟩

theorem generateLoop_grows {today : Date} {fuel : ℕ} {r r' : RecurringTransaction}
    (hr : db.TemplateOk r)
    (hP : ∀ date, { r with nextDueDate := date }.row.Flushable →
      P { r with nextDueDate := date }.row)
    (h : generateLoop org today fuel db r = .ok (db', r')) :
    db.GrowsMany P db' ∧ db'.TemplateOk r' := by
  induction fuel generalizing db r with
  | zero =>
    rw [generateLoop, pure_eq_ok, Prod.mk.injEq] at h
    obtain ⟨rfl, rfl⟩ := h
    exact ⟨.refl, hr⟩
  | succ fuel ih =>
    unfold generateLoop at h
    split_ifs at h
    · obtain ⟨db₁, hone, hrest⟩ := bind_eq_ok.mp h
      obtain ⟨hflush, rfl⟩ := generateOne_ok hone
      have hgrow : Db.Grows P db (db.post r.row) :=
        .post db _ (RecurringTransaction.rowOk hr) ⟨rfl, rfl, rfl⟩
          (hP r.nextDueDate hflush)
      have hr₁ := hr.mono hgrow.keepsAccounts
      have hnext : (db.post r.row).TemplateOk
          { r with nextDueDate := advanceDate r.nextDueDate r.frequency } :=
        ⟨hr₁.account, hr₁.amount⟩
      obtain ⟨hmany, hr'⟩ := ih hnext hP hrest
      exact ⟨.head hgrow hmany, hr'⟩
    · rw [pure_eq_ok, Prod.mk.injEq] at h
      obtain ⟨rfl, rfl⟩ := h
      exact ⟨.refl, hr⟩

theorem generateTemplate_grows (hwf : db.WellFormed) {today : Date} {r : RecurringTransaction}
    (hr : db.TemplateOk r)
    (hP : ∀ date, { r with nextDueDate := date }.row.Flushable →
      P { r with nextDueDate := date }.row)
    (h : generateTemplate org today db r = .ok db') : db.GrowsMany P db' := by
  unfold generateTemplate at h
  simp only [bind_eq_ok, Prod.exists, pure_eq_ok] at h
  obtain ⟨db₁, r', hloop, rfl⟩ := h
  obtain ⟨hmany, hr'⟩ := generateLoop_grows hr hP hloop
  exact hmany.tail (.setTemplates db₁ _ (put_template_ok (hmany.wellFormed hwf) hr'))

theorem generateDueTransactions_grows (hwf : db.WellFormed) {today : Date}
    (hP : ∀ r ∈ dueTemplates db org today, ∀ date,
      { r with nextDueDate := date }.row.Flushable → P { r with nextDueDate := date }.row)
    (h : generateDueTransactions db org today = .ok db') : db.GrowsMany P db' := by
  -- The loop runs over the templates read at its start, which stay well formed.
  suffices hloop : ∀ (l : List RecurringTransaction) (d : Db), db.GrowsMany P d →
      (∀ r ∈ l, db.TemplateOk r ∧ ∀ date, { r with nextDueDate := date }.row.Flushable →
        P { r with nextDueDate := date }.row) →
      ∀ d', l.foldlM (generateTemplate org today) d = .ok d' → db.GrowsMany P d' from
    hloop _ db .refl (fun r hr => ⟨hwf.template r (List.mem_of_mem_filter hr), hP r hr⟩) db' h
  intro l
  induction l with
  | nil =>
    intro d hd _ d' h
    rw [List.foldlM_nil, pure_eq_ok] at h
    exact h ▸ hd
  | cons r l ih =>
    intro d hd hl d' h
    rw [List.foldlM_cons, bind_eq_ok] at h
    obtain ⟨d₁, hone, hrest⟩ := h
    obtain ⟨hr, hrow⟩ := hl r List.mem_cons_self
    exact ih d₁
      (hd.trans (generateTemplate_grows (hd.wellFormed hwf) (hr.mono hd.keepsAccounts) hrow hone))
      (fun x hx => hl x (List.mem_cons_of_mem r hx)) d' hrest

/-! ### Import -/

theorem leavingLoaded_eq_ok {α : Type} {loaded : Bool} {x : Except ServiceError α} {a : α} :
    leavingLoaded loaded x = .ok a ↔ x = .ok a := by
  cases x <;> simp [leavingLoaded, Except.mapError]

theorem flushingLeg_eq_ok {α : Type} {loaded : Bool} {x : Except ServiceError α} {a : α} :
    flushingLeg loaded x = .ok a ↔ x = .ok a := by
  cases x <;> simp [flushingLeg, Except.mapError]

/-- The body of a leg is on the account that the leg is for. -/
theorem toCreate_accountId {row : ImportConfirmRow} {accountId categoryId : ℕ} {type : EntryType}
    {txBody : TransactionCreate} (h : row.toCreate accountId categoryId type = .ok txBody) :
    txBody.accountId = accountId := by
  simp only [ImportConfirmRow.toCreate, bind_eq_ok, pure_eq_ok] at h
  obtain ⟨_, -, _, -, rfl⟩ := h
  rfl

theorem importLeg_ok {body : ImportConfirmRequest} {row : ImportConfirmRow} {tx : Transaction}
    (h : importLeg db org body row = .ok (db', tx)) :
    ∃ txBody : TransactionCreate, txBody.accountId = body.accountId ∧
      (∃ acct, db.account? txBody.accountId org = some acct) ∧
      (txBody.row org true false row.fitid).Flushable ∧
      db' = db.post (txBody.row org true false row.fitid) ∧
      tx = { txBody.row org true false row.fitid with id := db.transactions.next } := by
  unfold importLeg at h
  simp only [bind_eq_ok] at h
  obtain ⟨txBody, hbody, hcreate⟩ := h
  obtain ⟨hacct, hdb, htx⟩ := createTransactionNoCommit_ok hcreate
  exact ⟨txBody, toCreate_accountId hbody, hacct, createTransactionNoCommit_flushable hcreate,
    hdb, htx⟩

theorem importLink_ok {row : ImportConfirmRow} {leg other : Transaction}
    (hleg : db.transactions.get? leg.id = some leg)
    (hother : db.transactions.get? other.id = some other)
    (h : importLink db row leg other = .ok db') :
    ∃ e i db₁ cat, db.Linkable e i ∧ db.MayAddCategory db₁ ∧ db' = db₁.linkRows e i cat := by
  unfold importLink at h
  split_ifs at h
  · obtain ⟨hlink, db₁, cat, hcat, hdb⟩ := linkPair_ok hleg hother h
    exact ⟨_, _, db₁, cat, hlink, hcat, hdb⟩
  · obtain ⟨hlink, db₁, cat, hcat, hdb⟩ := linkPair_ok hother hleg h
    exact ⟨_, _, db₁, cat, hlink, hcat, hdb⟩

theorem importPair_grows {currency : String} {row : ImportConfirmRow} {partnerId : ℕ}
    {newTx : Transaction} (hnew : db.transactions.get? newTx.id = some newTx)
    (h : importPair db org currency row partnerId newTx = .ok db') : db.GrowsMany P db' := by
  unfold importPair at h
  simp only [↓unit_bind_eq_ok, bind_eq_ok, orRaise_eq_ok] at h
  obtain ⟨partner, hpartner, -, -, -, -, hlink⟩ := h
  obtain ⟨e, i, db₁, cat, hlinkable, hcat, rfl⟩ :=
    importLink_ok hnew (Db.transaction?_self hpartner) hlink
  exact linkRows_grows hlinkable hcat

theorem importPartnerLeg_grows {body : ImportConfirmRequest} {row : ImportConfirmRow}
    {partnerAccountId : ℕ} {csvLeg : Transaction}
    (hP : ∀ txBody : TransactionCreate, txBody.accountId = partnerAccountId →
      (txBody.row org false false none).Flushable → P (txBody.row org false false none))
    (hcsv : db.transactions.get? csvLeg.id = some csvLeg)
    (h : importPartnerLeg db org body row partnerAccountId csvLeg = .ok db') :
    db.GrowsMany P db' := by
  unfold importPartnerLeg at h
  simp only [bind_eq_ok, Prod.exists] at h
  obtain ⟨txBody, hbody, db₁, partner, hcreate, hlink⟩ := h
  have hgrow := createTransactionNoCommit_grows (hP txBody (toCreate_accountId hbody)) hcreate
  obtain ⟨-, rfl, rfl⟩ := createTransactionNoCommit_ok hcreate
  obtain ⟨e, i, db₂, cat, hlinkable, hcat, rfl⟩ := importLink_ok
    (Table.get?_insert_of_some _ hcsv) (Table.get?_insert_next _ _) hlink
  exact hgrow.trans (linkRows_grows hlinkable hcat)

/-- The accounts a row of an import may post to: its own and that of its partner leg. -/
def ImportConfirmRow.PostsTo (row : ImportConfirmRow) (body : ImportConfirmRequest) (a : ℕ) :
    Prop :=
  row.action ≠ .dropAsDuplicate ∧
    (a = body.accountId ∨ row.action = .createTransferPair ∧ row.partnerAccountId = some a)

instance (row : ImportConfirmRow) (body : ImportConfirmRequest) (a : ℕ) :
    Decidable (row.PostsTo body a) :=
  inferInstanceAs (Decidable (_ ∧ _))

/-- The accounts an import may post to. -/
def ImportConfirmRequest.PostsTo (body : ImportConfirmRequest) (a : ℕ) : Prop :=
  ∃ row ∈ body.rows, row.skip = false ∧ row.PostsTo body a

/-- A row that goes through drops a duplicate and stores nothing, or posts the row of the bank file
first, under the next id. -/
theorem importRow_ok {body : ImportConfirmRequest} {currency : String} {row : ImportConfirmRow}
    {loaded loaded' : Bool} {id : Option ℕ}
    (hP : ∀ (txBody : TransactionCreate) imported fitid, row.PostsTo body txBody.accountId →
      (txBody.row org imported false fitid).Flushable → P (txBody.row org imported false fitid))
    (h : importRow db org body currency row loaded = .ok (db', id, loaded')) :
    id = none ∧ db' = db ∨ ∃ (txBody : TransactionCreate) (fitid : Option String),
      row.PostsTo body txBody.accountId ∧
      (∃ acct, db.account? txBody.accountId org = some acct) ∧
      (txBody.row org true false fitid).Flushable ∧ id = some db.transactions.next ∧
      (db.post (txBody.row org true false fitid)).GrowsMany P db' := by
  unfold importRow at h
  split at h
  · next haction =>
    simp only [importCreate, bind_eq_ok, flushingLeg_eq_ok, Prod.exists, pure_eq_ok,
      Prod.mk.injEq] at h
    obtain ⟨_, _, hleg, rfl, rfl, -⟩ := h
    obtain ⟨txBody, hid, hacct, hflush, rfl, rfl⟩ := importLeg_ok hleg
    exact .inr ⟨txBody, _, ⟨by simp [haction], .inl hid⟩, hacct, hflush, rfl, .refl⟩
  · next haction =>
    simp only [importPairWithExisting, bind_eq_ok, flushingLeg_eq_ok,
      leavingLoaded_eq_ok, Prod.exists, pure_eq_ok, Prod.mk.injEq] at h
    obtain ⟨_, -, _, _, hleg, _, hpair, rfl, rfl, -⟩ := h
    obtain ⟨txBody, hid, hacct, hflush, rfl, rfl⟩ := importLeg_ok hleg
    exact .inr ⟨txBody, _, ⟨by simp [haction], .inl hid⟩, hacct, hflush, rfl,
      importPair_grows (by exact Db.get?_post_next _ _) hpair⟩
  · simp only [importDropAsDuplicate, bind_eq_ok, pure_eq_ok, Prod.mk.injEq] at h
    obtain ⟨_, -, _, -, _, -, _, -, rfl, rfl, -⟩ := h
    exact .inl ⟨rfl, rfl⟩
  · next haction =>
    unfold importCreateTransferPair at h
    simp only [↓unit_bind_eq_ok, bind_eq_ok, orRaise_eq_ok, flushingLeg_eq_ok,
      leavingLoaded_eq_ok, Prod.exists, pure_eq_ok, Prod.mk.injEq] at h
    obtain ⟨p, hp, acct, hacct, -, -, -, -, _, _, hleg, _, hpair, rfl, rfl, -⟩ := h
    obtain ⟨txBody, hid, htx, hflush, rfl, rfl⟩ := importLeg_ok hleg
    refine .inr ⟨txBody, _, ⟨by simp [haction], .inl hid⟩, htx, hflush, rfl,
      importPartnerLeg_grows (fun partner hpartner => hP partner _ _ ?_)
        (by exact Db.get?_post_next _ _) hpair⟩
    exact ⟨by simp [haction], .inr ⟨haction, hp.trans (congrArg some hpartner.symm)⟩⟩

theorem importLink_importBatches {row : ImportConfirmRow} {leg other : Transaction}
    (hleg : db.transactions.get? leg.id = some leg)
    (hother : db.transactions.get? other.id = some other)
    (h : importLink db row leg other = .ok db') : db'.importBatches = db.importBatches := by
  obtain ⟨e, i, db₁, cat, -, hcat, rfl⟩ := importLink_ok hleg hother h
  show db₁.importBatches = db.importBatches
  rcases hcat with rfl | ⟨c, rfl⟩
  · rfl
  · rfl

/-- A row of an import opens no batch. -/
theorem importRow_importBatches {body : ImportConfirmRequest} {currency : String}
    {row : ImportConfirmRow} {loaded loaded' : Bool} {id : Option ℕ}
    (h : importRow db org body currency row loaded = .ok (db', id, loaded')) :
    db'.importBatches = db.importBatches := by
  unfold importRow at h
  split at h
  · simp only [importCreate, bind_eq_ok, flushingLeg_eq_ok, Prod.exists, pure_eq_ok,
      Prod.mk.injEq] at h
    obtain ⟨_, _, hleg, rfl, -⟩ := h
    obtain ⟨txBody, -, -, -, rfl, -⟩ := importLeg_ok hleg
    rfl
  · simp only [importPairWithExisting, importPair, bind_eq_ok, orRaise_eq_ok, flushingLeg_eq_ok,
      leavingLoaded_eq_ok, Prod.exists, pure_eq_ok, Prod.mk.injEq] at h
    obtain ⟨_, -, _, _, hleg, _, ⟨partner, hpartner, _, -, _, -, _, -, _, -, hlink⟩, rfl, -⟩ := h
    obtain ⟨txBody, -, -, -, rfl, rfl⟩ := importLeg_ok hleg
    have hsame := importLink_importBatches (by exact Db.get?_post_next _ _)
      (Db.transaction?_self hpartner) hlink
    exact hsame
  · simp only [importDropAsDuplicate, bind_eq_ok, pure_eq_ok, Prod.mk.injEq] at h
    obtain ⟨_, -, _, -, _, -, _, -, rfl, -⟩ := h
    rfl
  · unfold importCreateTransferPair importPartnerLeg at h
    simp only [↓unit_bind_eq_ok, bind_eq_ok, flushingLeg_eq_ok,
      leavingLoaded_eq_ok, Prod.exists, pure_eq_ok, Prod.mk.injEq] at h
    obtain ⟨_, -, _, -, -, -, -, -, _, _, hleg, _, ⟨_, -, _, _, hcreate, hlink⟩, rfl, -⟩ := h
    obtain ⟨txBody, -, -, -, rfl, rfl⟩ := importLeg_ok hleg
    obtain ⟨-, rfl, rfl⟩ := createTransactionNoCommit_ok hcreate
    have hsame := importLink_importBatches
      (by exact Table.get?_insert_of_some _ (Db.get?_post_next _ _))
      (by exact Table.get?_insert_next _ _) hlink
    exact hsame

/-- An imported row that the loop of an import has collected: still unlinked to any batch, accepted
and not a manual adjustment. -/
structure Imported (db : Db) (org id : ℕ) : Prop where
  row : ∃ t, db.transaction? id org = some t ∧ t.isManualAdjustment = false ∧
    t.reconciliationState = .accepted

/-- The state of the loop of an import: the ledger has grown, no batch was opened, and the collected
ids are distinct ids of imported rows. -/
structure ImportLoop (P : Transaction → Prop) (db : Db) (org : ℕ) (s : ImportState) : Prop where
  grows : db.GrowsMany P s.db
  batches : s.db.importBatches = db.importBatches
  nodup : s.importedTransactionIds.Nodup
  imported : ∀ id ∈ s.importedTransactionIds, Imported s.db org id

theorem Imported.grows {id : ℕ} (h : Imported db org id) (hgrow : db.GrowsMany P db') :
    Imported db' org id := by
  obtain ⟨t, ht, hmanual, hstate⟩ := h.row
  obtain ⟨hget, horg⟩ := Db.transaction?_eq_some.mp ht
  obtain ⟨t', ht', hsame⟩ := hgrow.keepsRow hget
  exact ⟨t', Db.transaction?_eq_some.mpr ⟨ht', by rw [hsame]; exact horg⟩,
    by rw [hsame]; exact hmanual, by rw [hsame]; exact hstate⟩

theorem ImportLoop.count {start : Db} {s : ImportState} (h : ImportLoop P start org s)
    (a : ImportAction) : ImportLoop P start org (s.count a) := by
  cases a <;> exact ⟨h.grows, h.batches, h.nodup, h.imported⟩

theorem ImportLoop.step {start : Db} {body : ImportConfirmRequest} {currency : String}
    {s : ImportState} {row : ImportConfirmRow}
    (hP : ∀ (txBody : TransactionCreate) imported fitid, row.skip = false →
      row.PostsTo body txBody.accountId → (txBody.row org imported false fitid).Flushable →
        P (txBody.row org imported false fitid))
    (h : ImportLoop P start org s) :
    ImportLoop P start org (importStep org body currency s row) := by
  unfold importStep
  split_ifs with hskip
  · exact ⟨h.grows, h.batches, h.nodup, h.imported⟩
  · split
    · exact ⟨h.grows, h.batches, h.nodup, h.imported⟩
    · next d id loaded hrow =>
      refine ImportLoop.count ?_ row.action
      have hP' := fun (txBody : TransactionCreate) imported fitid =>
        hP txBody imported fitid (Bool.not_eq_true _ ▸ hskip)
      rcases importRow_ok hP' hrow with ⟨rfl, rfl⟩ |
        ⟨txBody, fitid, hposts, hacct, hflush, rfl, hgrow⟩
      · exact ⟨h.grows, h.batches, by simpa using h.nodup, by simpa using h.imported⟩
      · have hpost : Db.Grows P s.db (s.db.post (txBody.row org true false fitid)) :=
          .post s.db _ (txBody.rowOk hacct _ _ _) (txBody.isNew_row _ _ _ _)
            (hP' _ _ _ hposts hflush)
        have hall : s.db.GrowsMany P d := .head hpost hgrow
        refine ⟨h.grows.trans hall, (importRow_importBatches hrow).trans h.batches, ?_, ?_⟩
        · -- The new id is larger than the ids of all stored rows.
          rw [Option.toList_some, List.nodup_append]
          refine ⟨h.nodup, List.nodup_singleton _, fun i hi j hj => ?_⟩
          obtain ⟨t, ht, -⟩ := (h.imported i hi).row
          rw [List.mem_singleton.mp hj]
          exact (Table.get?_lt (Db.transaction?_eq_some.mp ht).1).ne
        · intro i hi
          rcases List.mem_append.mp hi with hi | hi
          · exact (h.imported i hi).grows hall
          · rw [List.mem_singleton.mp hi]
            exact Imported.grows ⟨_, Db.transaction?_eq_some.mpr ⟨Db.get?_post_next _ _, rfl⟩,
              rfl, rfl⟩ hgrow

theorem ImportLoop.foldl {start : Db} {body : ImportConfirmRequest} {currency : String}
    (hP : ∀ (txBody : TransactionCreate) imported fitid, body.PostsTo txBody.accountId →
      (txBody.row org imported false fitid).Flushable → P (txBody.row org imported false fitid)) :
    ∀ (rows : List ImportConfirmRow) {s : ImportState}, (∀ row ∈ rows, row ∈ body.rows) →
      ImportLoop P start org s →
      ImportLoop P start org (rows.foldl (importStep org body currency) s)
  | [], _, _, h => h
  | row :: rows, _, hrows, h =>
      ImportLoop.foldl hP rows (fun x hx => hrows x (List.mem_cons_of_mem row hx))
        (h.step fun txBody imported fitid hskip hposts =>
          hP txBody imported fitid ⟨row, hrows row List.mem_cons_self, hskip, hposts⟩)

/-- The batch of an import opens with every row accepted and none pending. -/
theorem createImportBatch_ok {userId accountId : ℕ} {format : ImportSourceFormat}
    {fileName : String} {ids : List ℕ} {batchId : ℕ}
    (h : createImportBatch db org userId accountId format fileName ids = .ok (db', batchId)) :
    batchId = db.importBatches.next ∧ ∃ (b : ImportBatch) (hf : _),
      b.orgId = org ∧ b.rowCount = ids.length ∧ b.acceptedCount = ids.length ∧ b.pendingCount = 0 ∧
      db' = { db with
        importBatches := db.importBatches.insert b
        transactions := db.transactions.mapRows
          (Transaction.assignBatch ids org db.importBatches.next) hf } := by
  unfold createImportBatch at h
  simp only [↓unit_bind_eq_ok, pure_eq_ok, Prod.mk.injEq] at h
  obtain ⟨-, rfl, rfl⟩ := h
  exact ⟨rfl, _, _, rfl, rfl, rfl, rfl, rfl⟩

/-- An import ends with the state of its loop, or with that state and a batch of the collected
rows. -/
theorem executeImport_ok {body : ImportConfirmRequest} {userId : Option ℕ}
    {response : ImportConfirmResponse}
    (hP : ∀ (txBody : TransactionCreate) imported fitid, body.PostsTo txBody.accountId →
      (txBody.row org imported false fitid).Flushable → P (txBody.row org imported false fitid))
    (h : executeImport db org body userId = .ok (db', response)) :
    ∃ s, ImportLoop P db org s ∧
      (response.importId = none ∧ db' = s.db ∨
        ∃ user, response.importId = some s.db.importBatches.next ∧
          createImportBatch s.db org user body.accountId body.sourceFormat body.fileName
            s.importedTransactionIds = .ok (db', s.db.importBatches.next)) := by
  unfold executeImport at h
  simp only [bind_eq_ok, Prod.exists, pure_eq_ok, Prod.mk.injEq] at h
  obtain ⟨destination, -, d, importId, hbatch, rfl, rfl⟩ := h
  have hstart : ImportLoop P db org { db := db } := ⟨.refl, rfl, List.nodup_nil, by simp⟩
  refine ⟨body.rows.foldl (importStep org body destination.currency) { db := db },
    ImportLoop.foldl hP body.rows (fun _ hrow => hrow) hstart, ?_⟩
  unfold importBatchOf at hbatch
  split at hbatch
  · rw [pure_eq_ok, Prod.mk.injEq] at hbatch
    exact .inl ⟨hbatch.2.symm, hbatch.1.symm⟩
  · next user =>
    split_ifs at hbatch
    · rw [pure_eq_ok, Prod.mk.injEq] at hbatch
      exact .inl ⟨hbatch.2.symm, hbatch.1.symm⟩
    · simp only [bind_eq_ok, Prod.exists, pure_eq_ok, Prod.mk.injEq] at hbatch
      obtain ⟨d', batchId, hcreate, rfl, rfl⟩ := hbatch
      obtain ⟨rfl, -⟩ := createImportBatch_ok hcreate
      exact .inr ⟨user, rfl, hcreate⟩

theorem createImportBatch_grows {userId accountId : ℕ} {format : ImportSourceFormat}
    {fileName : String} {ids : List ℕ} {batchId : ℕ}
    (hids : ∀ id ∈ ids, Imported db org id)
    (h : createImportBatch db org userId accountId format fileName ids = .ok (db', batchId)) :
    db.GrowsMany P db' := by
  obtain ⟨-, b, hf, -, -, -, -, rfl⟩ := createImportBatch_ok h
  refine .single (.openBatch db ids org b hf fun i hi t ht => ?_)
  obtain ⟨u, hu, hmanual, -⟩ := (hids i hi).row
  rw [ht, Option.some_inj] at hu
  exact hu ▸ hmanual

theorem executeImport_grows {body : ImportConfirmRequest} {userId : Option ℕ}
    {response : ImportConfirmResponse}
    (hP : ∀ (txBody : TransactionCreate) imported fitid, body.PostsTo txBody.accountId →
      (txBody.row org imported false fitid).Flushable → P (txBody.row org imported false fitid))
    (h : executeImport db org body userId = .ok (db', response)) : db.GrowsMany P db' := by
  obtain ⟨s, hloop, ⟨-, rfl⟩ | ⟨user, -, hbatch⟩⟩ := executeImport_ok hP h
  · exact hloop.grows
  · exact hloop.grows.trans (createImportBatch_grows hloop.imported hbatch)

end Operations

end Pfv
