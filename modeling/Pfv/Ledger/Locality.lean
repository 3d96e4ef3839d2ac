import Pfv.Base.Projection
import Pfv.Ledger.OwnWrites

/-!
# Requests depend on their own organisation

An operation of the ledger services for an organisation does to the rows of the organisation what
it would do if there were no others: it reads nothing of them, writes the same, and fails with the
same errors. The ids of new rows come from the counters of the tables, which all organisations
share.

## Main definitions

* `Db.only o db`: the ledger with the rows of one organisation and the counters of all.

## Main results

* `createTransactionNoCommit_seen`, `linkPair_seen`, `updateTransactionLocked_seen` and so on: the
  operations on the rows of their organisation.
-/

namespace Pfv

namespace Db

/-- The ledger with the rows of one organisation. -/
def only (o : ℕ) (db : Db) : Db where
  accountTypes := db.accountTypes.filter (·.orgId = o)
  accounts := db.accounts.filter (·.orgId = o)
  categories := db.categories.filter (·.orgId = o)
  transactions := db.transactions.filter (·.orgId = o)
  recurring := db.recurring.filter (·.orgId = o)
  importBatches := db.importBatches.filter (·.orgId = o)

variable {db : Db} {o : ℕ}

/-! ### Reads -/

@[simp] theorem only_account? (k : ℕ) : (db.only o).account? k o = db.account? k o :=
  Table.filter_get?_filter ..

@[simp] theorem only_category? (k : ℕ) : (db.only o).category? k o = db.category? k o :=
  Table.filter_get?_filter ..

@[simp] theorem only_transaction? (k : ℕ) : (db.only o).transaction? k o = db.transaction? k o :=
  Table.filter_get?_filter ..

@[simp] theorem only_recurring? (k : ℕ) : (db.only o).recurring? k o = db.recurring? k o :=
  Table.filter_get?_filter ..

@[simp] theorem only_importBatch? (k : ℕ) : (db.only o).importBatch? k o = db.importBatch? k o :=
  Table.filter_get?_filter ..

@[simp] theorem only_next : (db.only o).transactions.next = db.transactions.next := rfl

/-- Rows selected by organisation and more. -/
theorem rows_only_filter {p : Transaction → Bool} (h : ∀ t, p t = true → t.orgId = o) :
    (db.only o).transactions.rows.filter p = db.transactions.rows.filter p := by
  simp only [only, Table.filter, List.filter_filter]
  refine List.filter_congr fun t _ => ?_
  cases hp : p t with
  | false => rfl
  | true => simp [h t hp]

@[simp] theorem only_lockRows (ids : List ℕ) : (db.only o).lockRows o ids = db.lockRows o ids :=
  rows_only_filter fun _ ht => (of_decide_eq_true ht).2

/-- The row under a key of the organisation. -/
theorem only_accounts_get? {k : ℕ} (h : db.accounts.Has Account.orgId o k) :
    (db.only o).accounts.get? k = db.accounts.get? k := by
  obtain ⟨a, ha, ho⟩ := h
  rw [only, Table.get?_filter, ha, Option.filter_some_pos (by simpa using ho)]

theorem only_currencyOf {k : ℕ} (h : db.accounts.Has Account.orgId o k) :
    (db.only o).currencyOf k = db.currencyOf k := by
  rw [currencyOf, only_accounts_get? h, currencyOf]

theorem only_balanceFits {k : ℕ} (h : db.accounts.Has Account.orgId o k) :
    (db.only o).BalanceFits k ↔ db.BalanceFits k := by
  rw [BalanceFits, only_accounts_get? h, BalanceFits]

/-! ### Writes -/

theorem only_credit (k : ℕ) (x : ℤ) : (db.credit k x).only o = (db.only o).credit k x := by
  have h : (db.credit k x).accounts.filter (·.orgId = o) =
      (db.accounts.filter (·.orgId = o)).modify k (fun a => { a with balance := a.balance + x })
        fun _ => rfl :=
    Table.filter_modify _ fun _ => rfl
  simp only [only, h]
  rfl

theorem only_addTransaction {t : Transaction} (h : t.orgId = o) :
    (db.addTransaction t).only o = (db.only o).addTransaction t := by
  have ht : (db.transactions.insert t).filter (·.orgId = o) =
      (db.transactions.filter (·.orgId = o)).insert t :=
    Table.filter_insert (decide_eq_true h)
  simp only [only, addTransaction, ht]

theorem only_putTransaction {t : Transaction} (h : t.orgId = o)
    (hold : db.transactions.Has Transaction.orgId o t.id) :
    (db.putTransaction t).only o = (db.only o).putTransaction t := by
  obtain ⟨u, hu, huo⟩ := hold
  have ht : (db.transactions.put t).filter (·.orgId = o) =
      (db.transactions.filter (·.orgId = o)).put t :=
    Table.filter_put hu (by simp [h, huo])
  simp only [only, putTransaction, ht]

theorem only_deleteTransactions (ids : List ℕ) :
    (db.deleteTransactions ids).only o = (db.only o).deleteTransactions ids := by
  have ht : (db.deleteTransactions ids).transactions.filter (·.orgId = o) =
      ((db.only o).deleteTransactions ids).transactions := by
    simp only [deleteTransactions]
    rw [Table.filter_mapRows _ fun _ _ => by rw [unlinkFrom_orgId], Table.filter_filter]
    rfl
  rw [only, ht]
  rfl

end Db

/-! ### Checks and balances -/

variable {db db' : Db} {o : ℕ}

@[simp] theorem validateAccount_only (k : ℕ) :
    validateAccount (db.only o) k o = validateAccount db k o := by
  simp [validateAccount]

@[simp] theorem validateCategoryForType_only (k : ℕ) (type : TransactionType) :
    validateCategoryForType (db.only o) k o type = validateCategoryForType db k o type := by
  simp [validateCategoryForType]

@[simp] theorem validateTransferCategory_only (k : ℕ) :
    validateTransferCategory (db.only o) k o = validateTransferCategory db k o := by
  simp [validateTransferCategory]

@[simp] theorem getAccountForUpdate_only (k : ℕ) :
    getAccountForUpdate (db.only o) k o = getAccountForUpdate db k o := by
  simp [getAccountForUpdate]

@[simp] theorem lockAccounts_only (ks : List ℕ) :
    lockAccounts (db.only o) o ks = lockAccounts db o ks := by
  induction ks with
  | nil => rfl
  | cons k ks ih => simp [lockAccounts, ih]

theorem applyBalance_seen (k : ℕ) (amount : ℤ) (type : TransactionType) :
    Seen (Db.only o) (applyBalance db k amount type) (applyBalance (db.only o) k amount type) := by
  cases type with
  | transfer => exact .error _ _
  | income => exact congrArg Except.ok (Db.only_credit k amount)
  | expense => exact congrArg Except.ok (Db.only_credit k (-amount))

theorem revertBalance_seen (k : ℕ) (amount : ℤ) (type : TransactionType) :
    Seen (Db.only o) (revertBalance db k amount type)
      (revertBalance (db.only o) k amount type) := by
  cases type with
  | transfer => exact .error _ _
  | income => exact congrArg Except.ok (Db.only_credit k (-amount))
  | expense => exact congrArg Except.ok (Db.only_credit k amount)

theorem applySettled_seen (t : Transaction) :
    Seen (Db.only o) (applySettled db t) (applySettled (db.only o) t) :=
  .ite (fun _ => applyBalance_seen _ _ _) fun _ => .pure _ _

theorem revertSettled_seen (t : Transaction) :
    Seen (Db.only o) (revertSettled db t) (revertSettled (db.only o) t) :=
  .ite (fun _ => revertBalance_seen _ _ _) fun _ => .pure _ _

theorem postSettled_seen (t : Transaction) :
    Seen (Db.only o) (postSettled db o t) (postSettled (db.only o) o t) := by
  unfold postSettled
  rw [getAccountForUpdate_only]
  exact .ite (fun _ => .read fun _ _ => applyBalance_seen _ _ _) fun _ => .pure _ _

theorem insertTransaction_seen {t : Transaction} (h : t.orgId = o) :
    Seen (Prod.map (Db.only o) id) (insertTransaction db t) (insertTransaction (db.only o) t) := by
  refine .check fun _ => ?_
  rw [← Db.only_addTransaction h]
  exact .pure _ _

/-- A row that was posted is on an account of the organisation when it is settled. -/
theorem postSettled_has {t : Transaction} (h : postSettled db o t = .ok db')
    (hs : t.status = .settled) : db'.accounts.Has Account.orgId o t.accountId := by
  obtain ⟨hacct, rfl⟩ := postSettled_eq_ok.mp h
  exact account?_has ((Db.keepsAccounts_credit db _ _).account? (hacct hs).1)

theorem insertPosted_seen {t : Transaction} (h : t.orgId = o)
    (hacct : t.status = .settled → db.accounts.Has Account.orgId o t.accountId) :
    Seen (Prod.map (Db.only o) id) (insertPosted db t) (insertPosted (db.only o) t) := by
  unfold insertPosted
  by_cases hfit : t.status = .settled ∧ ¬db.BalanceFits t.accountId
  · have hfit' : t.status = .settled ∧ ¬(db.only o).BalanceFits t.accountId :=
      ⟨hfit.1, (Db.only_balanceFits (hacct hfit.1)).not.mpr hfit.2⟩
    rw [raiseIf_of hfit, raiseIf_of hfit']
    exact .error _ _
  · have hfit' : ¬(t.status = .settled ∧ ¬(db.only o).BalanceFits t.accountId) := fun hno =>
      hfit ⟨hno.1, (Db.only_balanceFits (hacct hno.1)).not.mp hno.2⟩
    rw [raiseIf_of_not hfit, raiseIf_of_not hfit']
    exact insertTransaction_seen h

theorem saveTransaction_seen {t : Transaction} (h : t.orgId = o)
    (hold : db.transactions.Has Transaction.orgId o t.id) :
    Seen (Db.only o) (saveTransaction db t) (saveTransaction (db.only o) t) := by
  refine .check fun _ => ?_
  rw [← Db.only_putTransaction h hold]
  exact .pure _ _

/-! ### Creating -/

theorem createTransactionNoCommit_seen (body : TransactionCreate) (imported manual : Bool)
    (fitid : Option String) :
    Seen (Prod.map (Db.only o) id) (createTransactionNoCommit db o body imported manual fitid)
      (createTransactionNoCommit (db.only o) o body imported manual fitid) := by
  unfold createTransactionNoCommit
  rw [validateAccount_only, validateCategoryForType_only]
  exact .check fun _ => .check fun _ => (postSettled_seen _).bind fun _ hpost =>
    insertPosted_seen (o := o) rfl (postSettled_has hpost)

theorem createAccount_seen (body : AccountCreate) (today : Date) :
    Seen (Db.only o) (createAccount db o body today) (createAccount (db.only o) o body today) := by
  have htype : ((db.only o).accountTypes.get? body.accountTypeId).filter (·.orgId = o) =
      (db.accountTypes.get? body.accountTypeId).filter (·.orgId = o) :=
    Table.filter_get?_filter ..
  have hinsert : (db.accounts.insert (body.row o today)).filter (·.orgId = o) =
      (db.accounts.filter (·.orgId = o)).insert (body.row o today) :=
    Table.filter_insert (decide_eq_true rfl)
  unfold createAccount
  rw [htype]
  refine .read fun _ _ => .check fun _ => .check fun _ => ?_
  change Seen _ (pure _) (pure { db.only o with
    accounts := (db.accounts.filter (·.orgId = o)).insert (body.row o today) })
  rw [← hinsert]
  exact .pure _ _

/-- A system category that is looked up by its slug and stored when it is missing. -/
theorem findCategory_only {p : Category → Bool} (h : ∀ c, p c = true → c.orgId = o) :
    (db.only o).categories.rows.find? p = db.categories.rows.find? p := by
  simp only [Db.only, Table.filter, List.find?_filter]
  congr 1
  funext c
  cases hp : p c with
  | false => simp
  | true => simp [h c hp]

theorem only_addCategory {c : Category} (h : c.orgId = o) :
    ({ db with categories := db.categories.insert c } : Db).only o =
      { db.only o with categories := (db.only o).categories.insert c } := by
  have hc : (db.categories.insert c).filter (·.orgId = o) =
      (db.categories.filter (·.orgId = o)).insert c :=
    Table.filter_insert (decide_eq_true h)
  simp only [Db.only, hc]

theorem getOrCreateTransferCategory_only :
    getOrCreateTransferCategory (db.only o) o =
      Prod.map (Db.only o) id (getOrCreateTransferCategory db o) := by
  unfold getOrCreateTransferCategory
  rw [findCategory_only fun c hc => (of_decide_eq_true hc).2]
  split
  · rfl
  · simp only [Prod.map, id]
    rw [only_addCategory (by rfl)]
    rfl

theorem getOrCreateBalanceAdjustmentCategory_only :
    getOrCreateBalanceAdjustmentCategory (db.only o) o =
      Prod.map (Db.only o) id (getOrCreateBalanceAdjustmentCategory db o) := by
  unfold getOrCreateBalanceAdjustmentCategory
  rw [findCategory_only fun c hc => (of_decide_eq_true hc).2.1]
  split
  · rfl
  · simp only [Prod.map, id]
    rw [only_addCategory (by rfl)]
    rfl

theorem adjustAccountBalance_seen (accountId : ℕ) (body : BalanceAdjustmentRequest) (today : Date) :
    Seen (Prod.map (Db.only o) id) (adjustAccountBalance db o accountId body today)
      (adjustAccountBalance (db.only o) o accountId body today) := by
  unfold adjustAccountBalance
  rw [getAccountForUpdate_only, getOrCreateBalanceAdjustmentCategory_only]
  exact .read fun _ _ => .check fun _ => .read fun _ _ => createTransactionNoCommit_seen _ _ _ _

/-! ### Linking -/

theorem checkPair_only {e i : Transaction} (he : db.accounts.Has Account.orgId o e.accountId)
    (hi : db.accounts.Has Account.orgId o i.accountId) :
    checkPair (db.only o) e i = checkPair db e i := by
  unfold checkPair
  rw [Db.only_currencyOf he, Db.only_currencyOf hi]

theorem transferCategory_seen (recategorize : Bool) (cat : Option ℕ) :
    Seen (Prod.map (Db.only o) id) (transferCategory db o recategorize cat)
      (transferCategory (db.only o) o recategorize cat) := by
  unfold transferCategory
  refine .ite (fun _ => .pure _ _) fun _ => ?_
  cases cat with
  | none =>
    simp only [getOrCreateTransferCategory_only]
    exact .pure _ _
  | some c =>
    simp only [validateTransferCategory_only]
    exact .check fun _ => .pure _ _

theorem linkPair_seen (hdb : db.Tenanted) {e i : Transaction}
    (he : db.transaction? e.id o = some e) (hi : db.transaction? i.id o = some i)
    (recategorize : Bool) (cat : Option ℕ) :
    Seen (Db.only o) (linkPair db e i recategorize cat)
      (linkPair (db.only o) e i recategorize cat) := by
  obtain ⟨hew, heo⟩ := hdb.transaction? he
  obtain ⟨hiw, hio⟩ := hdb.transaction? hi
  unfold linkPair
  rw [heo, checkPair_only (heo ▸ hew.account) (hio ▸ hiw.account)]
  refine .check fun _ => (transferCategory_seen _ _).bind fun ⟨d, c⟩ hd => ?_
  have hrows : d.transactions = db.transactions := (transferCategory_ok hd).transactions
  have hed : d.transactions.Has Transaction.orgId o e.id := hrows ▸ transaction?_has he
  have hid : d.transactions.Has Transaction.orgId o i.id := hrows ▸ transaction?_has hi
  refine (saveTransaction_seen (t := e.linkTo i.id c) heo hed).bind fun d' hd' => ?_
  refine saveTransaction_seen (t := i.linkTo e.id c) hio ?_
  rw [(saveTransaction_eq_ok.mp hd').2]
  obtain ⟨u, hu, huo⟩ := hed
  exact Table.keepsOwners_put (a := e.linkTo i.id c) hu (heo.trans huo.symm) _ _ hid

theorem pairExistingTransactions_seen (hdb : db.Tenanted) (expenseTxId incomeTxId : ℕ)
    (recategorize : Bool) (cat : Option ℕ) :
    Seen (Db.only o) (pairExistingTransactions db o expenseTxId incomeTxId recategorize cat)
      (pairExistingTransactions (db.only o) o expenseTxId incomeTxId recategorize cat) := by
  unfold pairExistingTransactions
  rw [Db.only_lockRows]
  refine .check fun _ => .check fun _ => .read fun e he => .read fun i hi => ?_
  obtain ⟨he, -⟩ := Db.rowsGet_lockRows.mp (orRaise_eq_ok.mp he)
  obtain ⟨hi, -⟩ := Db.rowsGet_lockRows.mp (orRaise_eq_ok.mp hi)
  exact linkPair_seen hdb ((Db.transaction?_id he).symm ▸ he)
    ((Db.transaction?_id hi).symm ▸ hi) _ _

/-- The rows of an organisation are still found after a row is stored. -/
theorem transaction?_addTransaction {t u : Transaction} {k : ℕ} (h : db.transaction? k o = some u) :
    (db.addTransaction t).transaction? k o = some u := by
  obtain ⟨hget, horg⟩ := Db.transaction?_eq_some.mp h
  exact Db.transaction?_eq_some.mpr ⟨Table.get?_insert_of_some t hget, horg⟩

theorem convertPreview_only (hdb : db.Tenanted) (sourceTxId destinationAccountId : ℕ) :
    convertPreview (db.only o) o sourceTxId destinationAccountId =
      convertPreview db o sourceTxId destinationAccountId := by
  unfold convertPreview
  rw [Db.only_transaction?, Db.only_account?]
  refine bind_congr_of_ok fun source hsource => ?_
  obtain ⟨hwithin, horg⟩ := hdb.transaction? (orRaise_eq_ok.mp hsource)
  rw [Db.only_currencyOf (horg ▸ hwithin.account)]

theorem convertLocked_seen (hdb : db.Tenanted) (sourceTxId destinationAccountId : ℕ)
    (recategorize : Bool) (cat : Option ℕ) :
    Seen (Db.only o) (convertLocked db o sourceTxId destinationAccountId recategorize cat)
      (convertLocked (db.only o) o sourceTxId destinationAccountId recategorize cat) := by
  unfold convertLocked
  rw [Db.only_transaction?]
  refine .read fun source hsource => ?_
  rw [orRaise_eq_ok] at hsource
  obtain ⟨hwithin, horg⟩ := hdb.transaction? hsource
  rw [lockAccounts_only]
  refine .check fun _ => .check fun _ => .check fun _ => .check fun hlock => ?_
  have hdst := (lockAccounts_pair_has hlock).2
  rw [Db.only_currencyOf (horg ▸ hwithin.account), Db.only_currencyOf hdst]
  refine .check fun _ => (insertTransaction_seen (o := o) rfl).bind fun ⟨d, partner⟩ hd => ?_
  obtain ⟨-, rfl, rfl⟩ := insertTransaction_eq_ok.mp hd
  refine (applySettled_seen _).bind fun d' hd' => ?_
  obtain ⟨-, rfl⟩ := applySettled_eq_ok.mp hd'
  have hleg : db.RowWithin (partnerLeg o destinationAccountId source) :=
    ⟨hdst, horg ▸ hwithin.category,
      by simp [partnerLeg], by simp [partnerLeg], by simp [partnerLeg]⟩
  have hposted : Db.WritesMany o db _ := .post rfl hleg
  have htenanted := hposted.tenanted hdb
  have hsource' := transaction?_addTransaction (t := partnerLeg o destinationAccountId source)
    ((Db.transaction?_id hsource).symm ▸ hsource : db.transaction? source.id o = some source)
  let leg : Transaction :=
    { partnerLeg o destinationAccountId source with id := db.transactions.next }
  have hpartner : (db.addTransaction (partnerLeg o destinationAccountId source)).transaction?
      leg.id o = some leg :=
    Db.transaction?_eq_some.mpr ⟨Table.get?_insert_next _ _, rfl⟩
  refine .ite (fun _ => ?_) fun _ => ?_
  · exact linkPair_seen (i := leg) htenanted hsource' hpartner _ _
  · exact linkPair_seen (e := leg) htenanted hpartner hsource' _ _

theorem unpairPreview_only (id expenseCategoryId incomeCategoryId : ℕ) :
    unpairPreview (db.only o) o id expenseCategoryId incomeCategoryId =
      unpairPreview db o id expenseCategoryId incomeCategoryId := by
  unfold unpairPreview validateCategory
  rw [Db.only_transaction?, Db.only_category?, Db.only_category?]

theorem unpairLocked_seen (id linked expenseCategoryId incomeCategoryId : ℕ) :
    Seen (Db.only o) (unpairLocked db o id linked expenseCategoryId incomeCategoryId)
      (unpairLocked (db.only o) o id linked expenseCategoryId incomeCategoryId) := by
  unfold unpairLocked
  rw [Db.only_lockRows]
  refine .check fun _ => .read fun e he => .read fun i hi => ?_
  rw [orRaise_eq_ok] at he hi
  obtain ⟨heget, -, heorg⟩ := Db.mem_lockRows.mp (List.mem_of_find?_eq_some he)
  obtain ⟨higet, -, hiorg⟩ := Db.mem_lockRows.mp (List.mem_of_find?_eq_some hi)
  refine (saveTransaction_seen (t := e.unlink expenseCategoryId) heorg ⟨e, heget, heorg⟩).bind
    fun d hd => saveTransaction_seen (t := i.unlink incomeCategoryId) hiorg ?_
  rw [(saveTransaction_eq_ok.mp hd).2]
  exact Table.keepsOwners_put (a := e.unlink expenseCategoryId) heget rfl _ _ ⟨i, higet, hiorg⟩

theorem createTransferCategory_seen (cat : Option ℕ) :
    Seen (Prod.map (Db.only o) id) (createTransferCategory db o cat)
      (createTransferCategory (db.only o) o cat) := by
  cases cat with
  | none =>
    rw [createTransferCategory, createTransferCategory, getOrCreateTransferCategory_only]
    exact .pure _ _
  | some c =>
    simp only [createTransferCategory, validateTransferCategory_only]
    exact .check fun _ => .pure _ _

theorem createTransfer_seen (hdb : db.Tenanted) (body : TransferCreate) :
    Seen (Db.only o) (createTransfer db o body) (createTransfer (db.only o) o body) := by
  unfold createTransfer
  rw [validateAccount_only, validateAccount_only]
  refine .check fun _ => .check fun hfrom => .check fun hto => ?_
  have hfrom' := account?_has (validateAccount_eq_ok.mp hfrom)
  have hto' := account?_has (validateAccount_eq_ok.mp hto)
  have hdescription : transferDescription (db.only o) body = transferDescription db body := by
    unfold transferDescription
    rw [Db.only_accounts_get? hfrom', Db.only_accounts_get? hto']
  rw [hdescription]
  refine (createTransferCategory_seen _).bind fun ⟨d, categoryId⟩ hd => ?_
  refine (insertTransaction_seen (o := o) rfl).bind fun ⟨d₁, e⟩ hd₁ =>
    (insertTransaction_seen (o := o) rfl).bind fun ⟨d₂, i⟩ hd₂ => ?_
  obtain ⟨-, rfl, rfl⟩ := insertTransaction_eq_ok.mp hd₁
  obtain ⟨-, rfl, rfl⟩ := insertTransaction_eq_ok.mp hd₂
  obtain ⟨hcats, hhas⟩ := createTransferCategory_writes hd
  have haccounts : d.accounts = db.accounts := (createTransferCategory_ok hd).accounts
  have hlegs : db.WritesMany o (d.addLegs o body categoryId (transferDescription db body)) :=
    hcats.trans (addLegs_writes (haccounts.symm ▸ hfrom') (haccounts.symm ▸ hto') hhas)
  refine (linkPair_seen (hlegs.tenanted hdb) (by exact addLegs_expense d o body categoryId _)
    (by exact addLegs_income d o body categoryId _) _ _).bind fun d₃ _ => .ite (fun _ => ?_)
      fun _ => .pure _ _
  rw [lockAccounts_only]
  refine .check fun _ => ?_
  rw [← Db.only_credit, ← Db.only_credit]
  exact .pure _ _

/-! ### Editing and removing -/

theorem checkLinkedEdit_only (body : TransactionUpdate) {partner : Transaction}
    (h : db.accounts.Has Account.orgId o partner.accountId) :
    checkLinkedEdit (db.only o) o body partner = checkLinkedEdit db o body partner := by
  unfold checkLinkedEdit
  simp only [Db.only_account?, Db.only_currencyOf h]

theorem checkReferences_only (body : TransactionUpdate) (tx : Transaction)
    {partner : Option Transaction}
    (h : ∀ p ∈ partner, db.accounts.Has Account.orgId o p.accountId) :
    checkReferences (db.only o) o body tx partner = checkReferences db o body tx partner := by
  cases partner with
  | none => simp only [checkReferences, validateAccount_only]
  | some p => exact checkLinkedEdit_only body (h p rfl)

theorem checkCategoryEdit_only (body : TransactionUpdate) (edited : Transaction) :
    checkCategoryEdit (db.only o) o body edited = checkCategoryEdit db o body edited := by
  unfold checkCategoryEdit
  rw [validateCategoryForType_only]

theorem checkPairAfterEdit_only {tx edited partner : Transaction}
    (htx : db.accounts.Has Account.orgId o tx.accountId)
    (hpartner : db.accounts.Has Account.orgId o partner.accountId) :
    checkPairAfterEdit (db.only o) tx edited partner = checkPairAfterEdit db tx edited partner := by
  unfold checkPairAfterEdit
  rw [Db.only_currencyOf htx, Db.only_currencyOf hpartner]

/-- The rows of an edit belong to the organisation. -/
theorem writeEdit_seen {tx edited : Transaction} {mirror : Option (Transaction × Transaction)}
    (hedited : edited.orgId = o ∧ db.transactions.Has Transaction.orgId o edited.id)
    (hmirror : ∀ m ∈ mirror, m.2.orgId = o ∧ db.transactions.Has Transaction.orgId o m.2.id) :
    Seen (Db.only o) (writeEdit db tx edited mirror) (writeEdit (db.only o) tx edited mirror) := by
  unfold writeEdit
  cases mirror with
  | none =>
    simp only [pure_bind, bind_pure]
    refine (revertSettled_seen _).bind fun d hd => .check fun _ => ?_
    obtain ⟨-, rfl⟩ := revertSettled_eq_ok.mp hd
    exact (saveTransaction_seen hedited.1 (by exact hedited.2)).bind fun d _ => applySettled_seen _
  | some m =>
    obtain ⟨p, p'⟩ := m
    obtain ⟨hm, hmhas⟩ := hmirror (p, p') rfl
    refine (revertSettled_seen _).bind fun d hd => (revertSettled_seen _).bind fun d' hd' =>
      .check fun _ => ?_
    obtain ⟨-, rfl⟩ := revertSettled_eq_ok.mp hd
    obtain ⟨-, rfl⟩ := revertSettled_eq_ok.mp hd'
    refine (saveTransaction_seen hedited.1 (by exact hedited.2)).bind fun d hd => ?_
    obtain ⟨-, rfl⟩ := saveTransaction_eq_ok.mp hd
    have hkept : (db.putTransaction edited).transactions.Has Transaction.orgId o p'.id := by
      obtain ⟨u, hu, huo⟩ := hedited.2
      exact Table.keepsOwners_put hu (hedited.1.trans huo.symm) _ _ hmhas
    exact (saveTransaction_seen hm (by exact hkept)).bind fun d _ => (applySettled_seen _).bind
      fun d _ => applySettled_seen _

theorem pairPreview_only (id : ℕ) : pairPreview (db.only o) o id = pairPreview db o id := by
  unfold pairPreview
  rw [Db.only_transaction?]

/-- The mirrored partner is the partner, or the edited row itself, with another amount. -/
theorem mirrorOf_mem {body : TransactionUpdate} {edited : Transaction}
    {partner : Option Transaction} {m : Transaction × Transaction}
    (h : m ∈ mirrorOf body edited partner) : ∃ p ∈ partner,
      m.2 = { (if p.id = edited.id then edited else p) with amount := m.2.amount } := by
  cases partner with
  | none => simp [mirrorOf] at h
  | some p =>
    cases hamount : body.amount with
    | none => simp [mirrorOf, hamount] at h
    | some amount =>
      simp only [mirrorOf, hamount, Option.mem_def, Option.some_inj] at h
      exact ⟨p, rfl, by rw [← h]⟩

theorem updateTransactionLocked_seen (hdb : db.Tenanted) (key : ℕ) (body : TransactionUpdate)
    (today : Date) (ids : List ℕ) :
    Seen (Prod.map (Db.only o) id) (updateTransactionLocked db o key body today ids)
      (updateTransactionLocked (db.only o) o key body today ids) := by
  unfold updateTransactionLocked
  rw [Db.only_lockRows]
  refine .read fun tx htx => .check fun _ => .check fun _ => .check fun _ => ?_
  obtain ⟨htx, -⟩ := Db.rowsGet_lockRows.mp (orRaise_eq_ok.mp htx)
  obtain ⟨htxw, htxo⟩ := hdb.transaction? htx
  have hhas : db.transactions.Has Transaction.orgId o tx.id :=
    (Db.transaction?_id htx).symm ▸ transaction?_has htx
  have hmem : ∀ p ∈ tx.linkedTransactionId.bind (rowsGet (db.lockRows o ids)),
      db.transaction? p.id o = some p := by
    intro p hp
    obtain ⟨l, -, hl⟩ := Option.bind_eq_some_iff.mp hp
    obtain ⟨hl, -⟩ := Db.rowsGet_lockRows.mp hl
    exact (Db.transaction?_id hl).symm ▸ hl
  generalize tx.linkedTransactionId.bind (rowsGet (db.lockRows o ids)) = partner at hmem ⊢
  have hpartner : ∀ p ∈ partner, db.accounts.Has Account.orgId o p.accountId ∧ p.orgId = o :=
    fun p hp => ⟨(hdb.transaction? (hmem p hp)).2 ▸ (hdb.transaction? (hmem p hp)).1.account,
      (hdb.transaction? (hmem p hp)).2⟩
  rw [checkReferences_only _ _ fun p hp => (hpartner p hp).1]
  refine .check fun href => ?_
  have haccount : db.accounts.Has Account.orgId o (editTransaction tx body today).accountId := by
    rcases (checkReferences_ok today href).1 with hsame | hnew
    · exact hsame ▸ htxo ▸ htxw.account
    · exact account?_has hnew
  have hedited : (editTransaction tx body today).orgId = o ∧
      (editTransaction tx body today).id = tx.id := ⟨htxo, rfl⟩
  generalize editTransaction tx body today = edited at haccount hedited ⊢
  dsimp only
  rw [checkCategoryEdit_only]
  refine .check fun _ => ?_
  rw [lockAccounts_only]
  refine .check fun _ => (writeEdit_seen ⟨hedited.1, hedited.2.symm ▸ hhas⟩ fun m hm => ?_).bind
    fun d _ => ?_
  · obtain ⟨p, hp, hm⟩ := mirrorOf_mem hm
    rw [hm]
    split_ifs
    · exact ⟨hedited.1, hedited.2.symm ▸ hhas⟩
    · exact ⟨(hpartner p hp).2, transaction?_has (hmem p hp)⟩
  · cases partner with
    | none => exact .pure _ _
    | some p =>
      refine Seen.bind (φ := id) (.of_eq ?_) fun _ _ => .pure _ _
      refine (checkPairAfterEdit_only (htxo ▸ htxw.account) ?_).symm
      cases hmirror : mirrorOf body edited (some p) with
      | none =>
        simp only [Option.map_none, Option.getD_none]
        split_ifs
        · exact haccount
        · exact (hpartner p rfl).1
      | some m =>
        obtain ⟨q, hq, hm⟩ := mirrorOf_mem hmirror
        cases hq
        rw [Option.map_some, Option.getD_some, hm]
        split_ifs
        · exact haccount
        · exact (hpartner p rfl).1

theorem revertDeleted_seen (tx : Transaction) (linkedTx : Option Transaction) :
    Seen (Db.only o) (revertDeleted db o tx linkedTx)
      (revertDeleted (db.only o) o tx linkedTx) := by
  cases linkedTx with
  | none =>
    unfold revertDeleted
    rw [lockAccounts_only]
    exact .ite (fun _ => .check fun _ => revertBalance_seen _ _ _) fun _ => .pure _ _
  | some p =>
    simp only [revertDeleted, lockAccounts_only]
    exact .ite (fun _ => .check fun _ => (revertBalance_seen _ _ _).bind fun _ _ =>
      revertBalance_seen _ _ _) fun _ => .pure _ _

theorem deleteTransactionLocked_seen (id : ℕ) (ids : List ℕ) :
    Seen (Db.only o) (deleteTransactionLocked db o id ids)
      (deleteTransactionLocked (db.only o) o id ids) := by
  unfold deleteTransactionLocked
  rw [Db.only_lockRows]
  refine .read fun tx _ => .check fun _ => (revertDeleted_seen _ _).bind fun d _ => ?_
  rw [← Db.only_deleteTransactions]
  exact .pure _ _

theorem bulkDeleteLocked_seen (requested ids : List ℕ) :
    Seen (Prod.map (Db.only o) id) (bulkDeleteLocked db o requested ids)
      (bulkDeleteLocked (db.only o) o requested ids) := by
  unfold bulkDeleteLocked
  rw [Db.only_lockRows]
  dsimp only
  rw [lockAccounts_only]
  refine .check fun _ => ?_
  refine (Seen.foldlM (I := fun _ => True)
    (fun d t _ _ => ⟨revertSettled_seen t, fun _ _ => trivial⟩) db trivial).bind fun d _ => ?_
  rw [← Db.only_deleteTransactions]
  exact .pure _ _

theorem bulkDeleteTransactions_seen (ids : List ℕ) :
    Seen (Prod.map (Db.only o) id) (bulkDeleteTransactions db o ids)
      (bulkDeleteTransactions (db.only o) o ids) := by
  have hpreview : bulkDeletePreview (db.only o) o ids.eraseDups =
      bulkDeletePreview db o ids.eraseDups := by
    unfold bulkDeletePreview
    rw [Db.only_lockRows]
  unfold bulkDeleteTransactions
  dsimp only
  rw [hpreview]
  exact .ite (fun _ => .pure _ _) fun _ => bulkDeleteLocked_seen _ _

theorem Db.only_insertTemplate {r : RecurringTransaction} (h : r.orgId = o) :
    ({ db with recurring := db.recurring.insert r } : Db).only o =
      { db.only o with recurring := (db.only o).recurring.insert r } := by
  have hr : (db.recurring.insert r).filter (·.orgId = o) =
      (db.recurring.filter (·.orgId = o)).insert r :=
    Table.filter_insert (decide_eq_true h)
  simp only [Db.only, hr]

theorem Db.only_putTemplate {r : RecurringTransaction} (h : r.orgId = o)
    (hold : db.recurring.Has RecurringTransaction.orgId o r.id) :
    ({ db with recurring := db.recurring.put r } : Db).only o =
      { db.only o with recurring := (db.only o).recurring.put r } := by
  obtain ⟨x, hx, hxo⟩ := hold
  have hr : (db.recurring.put r).filter (·.orgId = o) =
      (db.recurring.filter (·.orgId = o)).put r :=
    Table.filter_put hx (by simp [h, hxo])
  simp only [Db.only, hr]

theorem promoteToRecurring_seen (key : ℕ) (body : PromoteToRecurringRequest) (today : Date) :
    Seen (Prod.map (Db.only o) id) (promoteToRecurring db o key body today)
      (promoteToRecurring (db.only o) o key body today) := by
  unfold promoteToRecurring
  rw [Db.only_transaction?]
  refine .check fun _ => .read fun tx htx => .check fun _ => .check fun _ => .check fun _ =>
    .read fun type _ => ?_
  rw [orRaise_eq_ok] at htx
  obtain ⟨hget, horg⟩ := Db.transaction?_eq_some.mp htx
  dsimp only
  rw [← Db.only_insertTemplate (by rfl)]
  refine (saveTransaction_seen (by exact horg) ?_).bind fun d _ => .pure _ _
  exact ⟨tx, Table.get?_self hget, horg⟩

/-! ### Templates -/

theorem createRecurring_seen (body : RecurringCreate) :
    Seen (Db.only o) (createRecurring db o body) (createRecurring (db.only o) o body) := by
  unfold createRecurring
  rw [validateAccount_only, validateCategoryForType_only]
  refine .check fun _ => .check fun _ => ?_
  dsimp only
  rw [← Db.only_insertTemplate (by rfl)]
  exact .check fun _ => .pure _ _

theorem recurring?_eq_some {id : ℕ} {r : RecurringTransaction} :
    db.recurring? id o = some r ↔ db.recurring.get? id = some r ∧ r.orgId = o := by
  simp [Db.recurring?, Option.filter_eq_some_iff]

theorem updateRecurring_seen (id : ℕ) (body : RecurringUpdate) :
    Seen (Db.only o) (updateRecurring db o id body) (updateRecurring (db.only o) o id body) := by
  unfold updateRecurring
  rw [Db.only_recurring?]
  refine .read fun r hr => ?_
  obtain ⟨hget, horg⟩ := recurring?_eq_some.mp (orRaise_eq_ok.mp hr)
  have hput : ({ db with recurring := db.recurring.put (editRecurring r body) } : Db).only o =
      { db.only o with recurring := (db.only o).recurring.put (editRecurring r body) } :=
    Db.only_putTemplate horg ⟨r, Table.get?_self hget, horg⟩
  have hend : Seen (Db.only o)
      (do
        flushTemplate (editRecurring r body)
        pure { db with recurring := db.recurring.put (editRecurring r body) })
      (do
        flushTemplate (editRecurring r body)
        pure { db.only o with recurring := (db.only o).recurring.put (editRecurring r body) }) :=
    .check fun _ => hput ▸ .pure _ _
  simp only [validateAccount_only, validateCategoryForType_only]
  cases body.accountId with
  | none => exact .ite (fun _ => .check fun _ => hend) fun _ => hend
  | some a => exact .check fun _ => .ite (fun _ => .check fun _ => hend) fun _ => hend

theorem pendingOfTemplate_only (id : ℕ) (today : Date) :
    pendingOfTemplate (db.only o) o id today = pendingOfTemplate db o id today :=
  Db.rows_only_filter fun _ ht => (of_decide_eq_true ht).2.1

theorem removePendingTransactions_only (id : ℕ) (today : Date) :
    (removePendingTransactions db o id today).only o =
      removePendingTransactions (db.only o) o id today := by
  unfold removePendingTransactions
  rw [pendingOfTemplate_only, Db.only_deleteTransactions]

theorem stopRecurring_seen (id : ℕ) (today : Date) :
    Seen (Db.only o) (stopRecurring db o id today) (stopRecurring (db.only o) o id today) := by
  unfold stopRecurring
  rw [Db.only_recurring?]
  refine .read fun r hr => ?_
  obtain ⟨hget, horg⟩ := recurring?_eq_some.mp (orRaise_eq_ok.mp hr)
  have hput := Db.only_putTemplate (r := { r with isActive := false }) horg
    ⟨r, Table.get?_self hget, horg⟩
  refine .pure_of_eq ?_
  rw [removePendingTransactions_only, hput]

theorem Db.only_dropTemplate (d : Db) (id : ℕ) (hf) :
    ({ d with
      recurring := d.recurring.filter (·.id ≠ id)
      transactions := d.transactions.mapRows (Transaction.detachFrom id) hf } : Db).only o =
      { d.only o with
        recurring := (d.only o).recurring.filter (·.id ≠ id)
        transactions := (d.only o).transactions.mapRows (Transaction.detachFrom id) hf } := by
  have hrows : (d.transactions.mapRows (Transaction.detachFrom id) hf).filter (·.orgId = o) =
      (d.transactions.filter (·.orgId = o)).mapRows (Transaction.detachFrom id) hf :=
    Table.filter_mapRows _ fun _ _ => by rw [detachFrom_orgId]
  have htemplates : (d.recurring.filter (·.id ≠ id)).filter (·.orgId = o) =
      (d.recurring.filter (·.orgId = o)).filter (·.id ≠ id) :=
    Table.filter_filter _
  simp only [Db.only, hrows, htemplates]

theorem deleteRecurring_seen (id : ℕ) (today : Date) :
    Seen (Db.only o) (deleteRecurring db o id today) (deleteRecurring (db.only o) o id today) := by
  unfold deleteRecurring
  rw [Db.only_recurring?]
  refine .read fun r _ => .pure_of_eq ?_
  rw [← removePendingTransactions_only]
  exact Db.only_dropTemplate _ id _

/-! ### Generation -/

theorem generateOne_seen {r : RecurringTransaction} (horg : r.orgId = o) :
    Seen (Db.only o) (generateOne db o r) (generateOne (db.only o) o r) := by
  unfold generateOne
  exact (postSettled_seen _).bind fun d hpost =>
    (insertPosted_seen horg (postSettled_has hpost)).bind fun _ _ => .pure _ _

theorem generateLoop_seen {today : Date} {fuel : ℕ} {r : RecurringTransaction}
    (horg : r.orgId = o) :
    Seen (Prod.map (Db.only o) id) (generateLoop o today fuel db r)
      (generateLoop o today fuel (db.only o) r) := by
  induction fuel generalizing db r with
  | zero => exact .pure _ _
  | succ fuel ih =>
    unfold generateLoop
    exact .ite (fun _ => (generateOne_seen horg).bind fun d _ => ih horg) fun _ => .pure _ _

theorem generateTemplate_seen {today : Date} {r : RecurringTransaction} (horg : r.orgId = o)
    (hr : db.TemplateWithin r) (hhas : db.recurring.Has RecurringTransaction.orgId o r.id) :
    Seen (Db.only o) (generateTemplate o today db r) (generateTemplate o today (db.only o) r) := by
  unfold generateTemplate
  refine (generateLoop_seen horg).bind fun ⟨d, r'⟩ hd => .pure_of_eq ?_
  obtain ⟨-, hkeeps, hr'⟩ := generateLoop_writes hr horg hhas hd
  refine Db.only_putTemplate ?_ ?_
  · rw [hr']
    exact horg
  · rw [hr']
    exact hkeeps.recurring _ _ hhas

theorem generateDueTransactions_seen (hdb : db.Tenanted) (today : Date) :
    Seen (Db.only o) (generateDueTransactions db o today)
      (generateDueTransactions (db.only o) o today) := by
  have hdue : dueTemplates (db.only o) o today = dueTemplates db o today := by
    simp only [dueTemplates, Db.only, Table.filter, List.filter_filter]
    refine List.filter_congr fun r _ => ?_
    by_cases horg : r.orgId = o <;> simp [horg]
  unfold generateDueTransactions
  rw [hdue]
  -- The templates read at the start stay where they are.
  refine Seen.foldlM (I := fun d => ∀ r ∈ dueTemplates db o today,
    d.TemplateWithin r ∧ r.orgId = o ∧ d.recurring.Has RecurringTransaction.orgId o r.id)
    (fun d r hr hd => ?_) db fun r hr => ?_
  · obtain ⟨hwithin, horg, hhas⟩ := hd r hr
    refine ⟨generateTemplate_seen horg hwithin hhas, fun d' hd' x hx => ?_⟩
    have hkeeps := (generateTemplate_writes hwithin horg hhas hd').2
    obtain ⟨hx, hxorg, hxhas⟩ := hd x hx
    exact ⟨hx.mono hkeeps, hxorg, hkeeps.recurring _ _ hxhas⟩
  · obtain ⟨hmem, hdue⟩ := List.mem_filter.mp hr
    have horg : r.orgId = o := (of_decide_eq_true hdue).1
    exact ⟨hdb.template r hmem, horg, r, Table.get?_of_mem hmem, horg⟩

/-! ### Import -/

theorem importLeg_seen (body : ImportConfirmRequest) (row : ImportConfirmRow) :
    Seen (Prod.map (Db.only o) id) (importLeg db o body row) (importLeg (db.only o) o body row) :=
  .read fun _ _ => createTransactionNoCommit_seen _ _ _ _

theorem importLink_seen (hdb : db.Tenanted) {row : ImportConfirmRow} {leg other : Transaction}
    (hleg : db.transaction? leg.id o = some leg)
    (hother : db.transaction? other.id o = some other) :
    Seen (Db.only o) (importLink db row leg other) (importLink (db.only o) row leg other) :=
  .ite (fun _ => linkPair_seen hdb hleg hother _ _) fun _ => linkPair_seen hdb hother hleg _ _

theorem importPair_seen (hdb : db.Tenanted) (currency : String) (row : ImportConfirmRow)
    (partnerId : ℕ) {newTx : Transaction} (hnew : db.transaction? newTx.id o = some newTx) :
    Seen (Db.only o) (importPair db o currency row partnerId newTx)
      (importPair (db.only o) o currency row partnerId newTx) := by
  unfold importPair
  rw [Db.only_transaction?]
  refine .read fun partner hpartner => ?_
  rw [orRaise_eq_ok] at hpartner
  obtain ⟨hwithin, horg⟩ := hdb.transaction? hpartner
  rw [Db.only_currencyOf (horg ▸ hwithin.account)]
  exact .check fun _ => .check fun _ => .check fun _ => .check fun _ =>
    importLink_seen hdb hnew ((Db.transaction?_id hpartner).symm ▸ hpartner)

theorem importPartnerLeg_seen (hdb : db.Tenanted) (body : ImportConfirmRequest)
    (row : ImportConfirmRow) (partnerAccountId : ℕ) {csvLeg : Transaction}
    (hcsv : db.transaction? csvLeg.id o = some csvLeg) :
    Seen (Db.only o) (importPartnerLeg db o body row partnerAccountId csvLeg)
      (importPartnerLeg (db.only o) o body row partnerAccountId csvLeg) := by
  refine .read fun txBody _ => (createTransactionNoCommit_seen _ _ _ _).bind
    fun ⟨d, partner⟩ hcreate => ?_
  obtain ⟨hpartner, hkept⟩ := createTransactionNoCommit_stored hcreate
  exact importLink_seen ((createTransactionNoCommit_writes hcreate).tenanted hdb) (hkept _ hcsv)
    hpartner

theorem findDuplicateOfLinkedLeg_only (hdb : db.Tenanted) (accountId : ℕ) (amount : ℚ)
    (type : TransactionType) (date : Date) (currency : String) :
    findDuplicateOfLinkedLeg (db.only o) o accountId amount type date currency =
      findDuplicateOfLinkedLeg db o accountId amount type date currency := by
  unfold findDuplicateOfLinkedLeg
  rw [Db.rows_only_filter fun _ ht => (of_decide_eq_true ht).1]
  refine congrArg (fun l => (List.insertionSort (closerTo date) l).take 10)
    (List.filter_congr fun t ht => ?_)
  by_cases horg : t.orgId = o
  · rw [Db.only_currencyOf (horg ▸ (hdb.row t ht).account)]
  · simp [horg]

theorem importRow_seen (hdb : db.Tenanted) (body : ImportConfirmRequest) (currency : String)
    (row : ImportConfirmRow) (loaded : Bool) :
    Seen (Prod.map (Db.only o) id) (importRow db o body currency row loaded)
      (importRow (db.only o) o body currency row loaded) := by
  have hleg : ∀ {d : Db} {tx : Transaction}, importLeg db o body row = .ok (d, tx) →
      d.Tenanted ∧ d.transaction? tx.id o = some tx := fun h =>
    ⟨(importLeg_writes h).1.tenanted hdb, (importLeg_writes h).2⟩
  unfold importRow
  cases row.action with
  | create => exact ((importLeg_seen body row).mapError _).bind fun _ _ => .pure _ _
  | pairWithExisting =>
    refine .read fun partnerId _ => ((importLeg_seen body row).mapError _).bind
      fun ⟨d, tx⟩ hd => ?_
    obtain ⟨htenanted, hstored⟩ := hleg (flushingLeg_eq_ok.mp hd)
    exact ((importPair_seen htenanted _ _ _ hstored).mapError _).bind fun _ _ => .pure _ _
  | dropAsDuplicate =>
    unfold importDropAsDuplicate
    rw [findDuplicateOfLinkedLeg_only hdb]
    exact .read fun _ _ => .check fun _ => .check fun _ => .check fun _ => .pure _ _
  | createTransferPair =>
    simp only [importCreateTransferPair, Db.only_account?, lockAccounts_only]
    refine .read fun p _ => .read fun a _ => .check fun _ => .check fun _ => .check fun _ =>
      .check fun _ => ((importLeg_seen body row).mapError _).bind fun ⟨d, tx⟩ hd => ?_
    obtain ⟨htenanted, hstored⟩ := hleg (flushingLeg_eq_ok.mp hd)
    exact ((importPartnerLeg_seen htenanted _ _ _ hstored).mapError _).bind fun _ _ => .pure _ _

/-- One turn of the loop of an import. -/
theorem importStep_only {s : ImportState} (hs : s.db.Tenanted) (body : ImportConfirmRequest)
    (currency : String) (row : ImportConfirmRow) :
    importStep o body currency { s with db := s.db.only o } row =
      { importStep o body currency s row with
        db := (importStep o body currency s row).db.only o } := by
  unfold importStep
  by_cases hskip : row.skip = true
  · rw [if_pos hskip, if_pos hskip]
  rw [if_neg hskip, if_neg hskip]
  have hseen := importRow_seen (o := o) hs body currency row s.destinationLoaded
  cases hrow : importRow s.db o body currency row s.destinationLoaded with
  | error e =>
    rw [hrow] at hseen
    have herror : importRow (s.db.only o) o body currency row s.destinationLoaded = .error e :=
      hseen.symm
    simp only [herror]
  | ok r =>
    simp only [hseen.ok hrow]
    cases row.action <;> rfl

theorem importLoop_only {s : ImportState} (body : ImportConfirmRequest) (currency : String)
    (rows : List ImportConfirmRow) (hs : s.db.Tenanted) :
    rows.foldl (importStep o body currency) { s with db := s.db.only o } =
      { rows.foldl (importStep o body currency) s with
        db := (rows.foldl (importStep o body currency) s).db.only o } := by
  induction rows generalizing s with
  | nil => rfl
  | cons row rows ih =>
    have hwrites : s.db.WritesMany o (importStep o body currency s row).db :=
      importStep_writes hs .refl row
    have hnext : (importStep o body currency s row).db.Tenanted := hwrites.tenanted hs
    rw [List.foldl_cons, List.foldl_cons, importStep_only hs, ih hnext]

theorem createImportBatch_seen (userId accountId : ℕ) (format : ImportSourceFormat)
    (fileName : String) (ids : List ℕ) :
    Seen (Prod.map (Db.only o) id) (createImportBatch db o userId accountId format fileName ids)
      (createImportBatch (db.only o) o userId accountId format fileName ids) := by
  refine .check fun _ => .pure_of_eq (Prod.ext ?_ rfl)
  have hbatches : ∀ b : ImportBatch, b.orgId = o →
      (db.importBatches.insert b).filter (·.orgId = o) =
        (db.importBatches.filter (·.orgId = o)).insert b := fun b hb =>
    Table.filter_insert (decide_eq_true hb)
  have hrows : ∀ (b : ℕ) (hf), (db.transactions.mapRows (Transaction.assignBatch ids o b) hf).filter
      (·.orgId = o) = (db.transactions.filter (·.orgId = o)).mapRows
        (Transaction.assignBatch ids o b) hf := fun b hf =>
    Table.filter_mapRows _ fun _ _ => by rw [Db.assignBatch_orgId]
  simp only [Prod.map, Db.only, hrows]
  rw [hbatches _ (by rfl)]
  rfl

theorem importBatchOf_seen (body : ImportConfirmRequest) (userId : Option ℕ) (s : ImportState) :
    Seen (Prod.map (Db.only o) id) (importBatchOf o body userId s)
      (importBatchOf o body userId { s with db := s.db.only o }) := by
  unfold importBatchOf
  cases userId with
  | none => exact .pure _ _
  | some user =>
    exact .ite (fun _ => .pure _ _) fun _ => (createImportBatch_seen _ _ _ _ _).bind
      fun _ _ => .pure _ _

theorem executeImport_seen (hdb : db.Tenanted) (body : ImportConfirmRequest) (userId : Option ℕ) :
    Seen (Prod.map (Db.only o) id) (executeImport db o body userId)
      (executeImport (db.only o) o body userId) := by
  unfold executeImport
  rw [Db.only_account?]
  refine .read fun destination _ => ?_
  have hloop := importLoop_only (o := o) (s := { db := db }) body destination.currency body.rows hdb
  dsimp only at hloop ⊢
  rw [hloop]
  exact (importBatchOf_seen _ _ _).bind fun _ _ => .pure _ _

/-! ### Reconciliation -/

theorem applyAmountEdit_seen (tx : Transaction) (amount : Option Amount) :
    Seen (Db.only o) (applyAmountEdit db o tx amount)
      (applyAmountEdit (db.only o) o tx amount) := by
  cases amount with
  | none => exact .pure _ _
  | some amount =>
    unfold applyAmountEdit
    rw [getAccountForUpdate_only]
    exact .ite (fun _ => .read fun _ _ => (revertBalance_seen _ _ _).bind fun _ _ =>
      applyBalance_seen _ _ _) fun _ => .pure _ _

theorem applyEdits_seen (tx : Transaction) (edits : Option ReconciliationEdits) :
    Seen (Prod.map (Db.only o) id) (applyEdits db o tx edits)
      (applyEdits (db.only o) o tx edits) := by
  cases edits with
  | none => exact .pure _ _
  | some edits =>
    unfold applyEdits
    simp only [validateCategoryForType_only]
    refine .check fun _ => ?_
    cases edits.categoryId with
    | none => exact (applyAmountEdit_seen _ _).bind fun _ _ => .pure _ _
    | some c => exact .check fun _ => (applyAmountEdit_seen _ _).bind fun _ _ => .pure _ _

theorem applyMatch_only (tx : Transaction) (matchId : Option ℕ) :
    applyMatch (db.only o) o tx matchId = applyMatch db o tx matchId := by
  cases matchId with
  | none => rfl
  | some m => simp only [applyMatch, Db.only_transaction?]

theorem applyPayload_seen (tx : Transaction) (tr : ReconciliationTransition) :
    Seen (Prod.map (Db.only o) id) (applyPayload db o tx tr)
      (applyPayload (db.only o) o tx tr) := by
  unfold applyPayload
  split
  · exact applyEdits_seen _ _
  · rw [applyMatch_only]
    exact .read fun _ _ => .pure _ _
  · exact .pure _ _

theorem applyBalanceForTransition_seen (tx : Transaction) (source : Bool) :
    Seen (Db.only o) (applyBalanceForTransition db o tx source)
      (applyBalanceForTransition (db.only o) o tx source) := by
  unfold applyBalanceForTransition
  rw [getAccountForUpdate_only]
  exact .ite (fun _ => .read fun _ _ => .ite (fun _ => revertBalance_seen _ _ _)
    fun _ => applyBalance_seen _ _ _) fun _ => .pure _ _

/-- The payload of a transition keeps the row and the stored rows where they are. -/
theorem applyPayload_keeps {tx tx' : Transaction} {tr : ReconciliationTransition}
    (h : applyPayload db o tx tr = .ok (db', tx')) :
    db'.transactions = db.transactions ∧ tx'.id = tx.id ∧ tx'.orgId = tx.orgId := by
  unfold applyPayload at h
  split at h
  · obtain ⟨-, rfl, rfl⟩ := applyEdits_ok h
    cases tr.edits <;> exact ⟨rfl, rfl, rfl⟩
  · simp only [bind_eq_ok, pure_eq_ok, Prod.mk.injEq] at h
    obtain ⟨_, hmatch, rfl, rfl⟩ := h
    obtain ⟨m, target, -, -, -, rfl⟩ := applyMatch_ok hmatch
    exact ⟨rfl, rfl, rfl⟩
  · rw [pure_eq_ok, Prod.mk.injEq] at h
    obtain ⟨rfl, rfl⟩ := h
    exact ⟨rfl, rfl, rfl⟩

theorem transitionRow_seen (batch : ImportBatch) {tx : Transaction}
    (htx : db.transaction? tx.id o = some tx) (tr : ReconciliationTransition) :
    Seen (Prod.map (Db.only o) id) (transitionRow db o batch tx tr)
      (transitionRow (db.only o) o batch tx tr) := by
  unfold transitionRow
  refine .check fun _ => (applyPayload_seen _ _).bind fun ⟨d, edited⟩ hd => ?_
  obtain ⟨hrows, hid, horg⟩ := applyPayload_keeps hd
  refine (applyBalanceForTransition_seen _ _).bind fun d' hd' => ?_
  have hrows' : d'.transactions = db.transactions := by
    rw [applyBalanceForTransition_ok hd', Db.credit_transactions, hrows]
  refine (saveTransaction_seen (t := { edited with reconciliationState := tr.toState })
    (horg.trans (Db.transaction?_eq_some.mp htx).2) ?_).bind fun _ _ => .pure _ _
  change d'.transactions.Has Transaction.orgId o edited.id
  rw [hid, hrows']
  exact transaction?_has htx

theorem reconcileOne_seen (s : Db × ImportBatch) (tr : ReconciliationTransition) :
    Seen (Prod.map (Db.only o) id) (reconcileOne o s tr)
      (reconcileOne o (s.1.only o, s.2) tr) := by
  unfold reconcileOne
  simp only [Db.only_transaction?]
  refine .check fun _ => .read fun tx htx => .check fun _ => .ite (fun _ => .pure _ _) fun _ => ?_
  rw [orRaise_eq_ok] at htx
  exact transitionRow_seen s.2 ((Db.transaction?_id htx).symm ▸ htx) tr

/-- The rows of a batch belong to its organisation. -/
theorem pendingRows_only (hdb : db.Tenanted) {batch : ℕ}
    (hbatch : db.importBatches.Has ImportBatch.orgId o batch) :
    pendingRows (db.only o) batch = pendingRows db batch := by
  simp only [pendingRows, Db.only, Table.filter, List.countP_filter]
  refine List.countP_congr fun t ht => ?_
  have horg : t.importBatchId = some batch → t.orgId = o := fun hb => by
    obtain ⟨b, hget, hbo⟩ := (hdb.row t ht).batch batch hb
    obtain ⟨b', hget', hbo'⟩ := hbatch
    rw [hget, Option.some_inj] at hget'
    exact (hbo.symm.trans (congrArg _ hget')).trans hbo'
  simp only [Bool.and_eq_true, decide_eq_true_eq]
  exact ⟨And.left, fun h => ⟨h, horg h.1⟩⟩

/-- What one item of a reconcile request for an organisation keeps. -/
structure ReconcileInv (o : ℕ) (db : Db) (batch : ImportBatch) (s : Db × ImportBatch) : Prop where
  tenanted : s.1.Tenanted
  wellFormed : s.1.WellFormed
  batches : s.1.importBatches = db.importBatches
  id : s.2.id = batch.id
  org : s.2.orgId = batch.orgId

theorem ReconcileInv.step {batch : ImportBatch} {s s' : Db × ImportBatch}
    {tr : ReconciliationTransition} (hs : ReconcileInv o db batch s)
    (h : reconcileOne o s tr = .ok s') : ReconcileInv o db batch s' := by
  obtain ⟨hwrites, hbatches, hid, horg, -⟩ := reconcileOne_writes hs.tenanted hs.wellFormed h
  exact ⟨hwrites.tenanted hs.tenanted, reconcileOne_wellFormed hs.wellFormed h,
    hbatches.trans hs.batches, hid.trans hs.id, horg.trans hs.org⟩

theorem reconcileRequest_seen (hdb : db.Tenanted) (hwf : db.WellFormed) (batchId : ℕ)
    (body : ReconcileBatchRequest) :
    Seen (Prod.map (Db.only o) id) (reconcileRequest db o batchId body)
      (reconcileRequest (db.only o) o batchId body) := by
  unfold reconcileRequest
  rw [Db.only_importBatch?]
  refine .read fun batch hbatch => ?_
  obtain ⟨hget, horg⟩ : db.importBatches.get? batchId = some batch ∧ batch.orgId = o := by
    simpa [Db.importBatch?, Option.filter_eq_some_iff] using orRaise_eq_ok.mp hbatch
  have hstart : ReconcileInv o db batch (db, batch) := ⟨hdb, hwf, rfl, rfl, rfl⟩
  refine (Seen.foldlM (I := ReconcileInv o db batch) (fun s tr _ hs =>
    ⟨reconcileOne_seen s tr, fun _ => hs.step⟩) (db, batch) hstart).bind fun s hd => ?_
  obtain ⟨d, b⟩ := s
  have hinv : ReconcileInv o db batch (d, b) :=
    foldlM_invariant (ReconcileInv o db batch) (fun _ _ _ hs => hs.step) _ _ _ hstart hd
  have hold : d.importBatches.get? b.id = some batch := by
    rw [hinv.batches, hinv.id]
    exact Table.get?_self hget
  have hclose : closeBatchIfComplete (d.only o) b = closeBatchIfComplete d b := by
    unfold closeBatchIfComplete
    rw [pendingRows_only hinv.tenanted ⟨batch, hold, horg⟩]
  have hcloseOrg : (closeBatchIfComplete d b).orgId = b.orgId := by
    unfold closeBatchIfComplete
    split_ifs <;> rfl
  have hput : (d.importBatches.put (closeBatchIfComplete d b)).filter (·.orgId = o) =
      (d.importBatches.filter (·.orgId = o)).put (closeBatchIfComplete d b) := by
    refine Table.filter_put (b := batch) ?_ ?_
    · rw [ImportBatch.row_id, closeBatchIfComplete_id]
      exact hold
    · rw [hcloseOrg.trans hinv.org]
  dsimp only [Prod.map, id]
  rw [hclose]
  refine .pure_of_eq (Prod.ext ?_ rfl)
  simp only [Prod.map, Db.only, hput]

/-! ### All requests -/

theorem updateTransaction_seen (hdb : db.Tenanted) (key : ℕ) (body : TransactionUpdate)
    (today : Date) :
    Seen (Prod.map (Db.only o) id) (updateTransaction db o key body today)
      (updateTransaction (db.only o) o key body today) := by
  unfold updateTransaction
  rw [pairPreview_only]
  exact .read fun ids _ => updateTransactionLocked_seen hdb key body today ids

theorem deleteTransaction_seen (id : ℕ) :
    Seen (Db.only o) (deleteTransaction db o id) (deleteTransaction (db.only o) o id) := by
  unfold deleteTransaction
  rw [pairPreview_only]
  exact .read fun ids _ => deleteTransactionLocked_seen id ids

theorem convertAndCreateLeg_seen (hdb : db.Tenanted) (source dst : ℕ) (recategorize : Bool)
    (cat : Option ℕ) :
    Seen (Db.only o) (convertAndCreateLeg db o source dst recategorize cat)
      (convertAndCreateLeg (db.only o) o source dst recategorize cat) := by
  unfold convertAndCreateLeg
  rw [convertPreview_only hdb]
  exact .check fun _ => convertLocked_seen hdb source dst recategorize cat

theorem unpairTransactions_seen (id expenseCategoryId incomeCategoryId : ℕ) :
    Seen (Db.only o) (unpairTransactions db o id expenseCategoryId incomeCategoryId)
      (unpairTransactions (db.only o) o id expenseCategoryId incomeCategoryId) := by
  unfold unpairTransactions
  rw [unpairPreview_only]
  exact .read fun linked _ => unpairLocked_seen id linked expenseCategoryId incomeCategoryId

/-- A request does to the rows of its organisation what it does when there are no others. -/
theorem Request.step_seen {r : Request} (hdb : db.Tenanted) (hwf : db.WellFormed) :
    Seen (Db.only r.org) (Request.step db r) (Request.step (db.only r.org) r) := by
  cases r with
  | createAccount org body today => exact createAccount_seen body today
  | create org body imported => exact (createTransactionNoCommit_seen body imported false none).fst
  | createNoCommit org body imported manual fitid =>
    exact (createTransactionNoCommit_seen body imported manual fitid).fst
  | transfer org body => exact createTransfer_seen hdb body
  | update org id body today => exact (updateTransaction_seen hdb id body today).fst
  | delete org id => exact deleteTransaction_seen id
  | bulkDelete org ids => exact (bulkDeleteTransactions_seen ids).fst
  | pair org e i recategorize cat => exact pairExistingTransactions_seen hdb e i recategorize cat
  | convert org source dst recategorize cat =>
    exact convertAndCreateLeg_seen hdb source dst recategorize cat
  | unpair org id ec ic => exact unpairTransactions_seen id ec ic
  | promote org id body today => exact (promoteToRecurring_seen id body today).fst
  | adjust org account body today => exact (adjustAccountBalance_seen account body today).fst
  | executeImport org body user => exact (executeImport_seen hdb body user).fst
  | generateDue org today => exact generateDueTransactions_seen hdb today
  | createRecurring org body => exact createRecurring_seen body
  | updateRecurring org id body => exact updateRecurring_seen id body
  | stopRecurring org id today => exact stopRecurring_seen id today
  | deleteRecurring org id today => exact deleteRecurring_seen id today
  | reconcile org batchId body => exact (reconcileRequest_seen hdb hwf batchId body).fst

end Pfv
