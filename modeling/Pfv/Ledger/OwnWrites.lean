import Pfv.Ledger.References
import Pfv.Ledger.Requests

/-!
# Requests write in their own organisation

Every request of the ledger services names the organisation it is served for. When it succeeds, it
is a sequence of writes to rows of that organisation.

## Main definitions

* `Request.org`: the organisation of a request.

## Main results

* `Request.step_writes`: a successful request is a sequence of writes of its organisation.
-/

namespace Pfv

/-- The organisation a request is served for. -/
def Request.org : Request → ℕ
  | .createAccount org _ _ => org
  | .create org _ _ => org
  | .createNoCommit org _ _ _ _ => org
  | .transfer org _ => org
  | .update org _ _ _ => org
  | .delete org _ => org
  | .bulkDelete org _ => org
  | .pair org _ _ _ _ => org
  | .convert org _ _ _ _ => org
  | .unpair org _ _ _ => org
  | .promote org _ _ _ => org
  | .adjust org _ _ _ => org
  | .executeImport org _ _ => org
  | .generateDue org _ => org
  | .createRecurring org _ => org
  | .updateRecurring org _ _ => org
  | .stopRecurring org _ _ => org
  | .deleteRecurring org _ _ => org
  | .reconcile org _ _ => org

variable {db db' : Db} {org : ℕ}

/-! ### Lookups -/

theorem account?_has {k : ℕ} (h : ∃ a, db.account? k org = some a) :
    db.accounts.Has Account.orgId org k :=
  Table.has_iff_filter.mpr h

theorem category?_has {k : ℕ} {c : Category} (h : db.category? k org = some c) :
    db.categories.Has Category.orgId org k :=
  Table.has_iff_filter.mpr ⟨c, h⟩

theorem transaction?_has {k : ℕ} {t : Transaction} (h : db.transaction? k org = some t) :
    db.transactions.Has Transaction.orgId org k :=
  Table.has_iff_filter.mpr ⟨t, h⟩

theorem recurring?_has {k : ℕ} {r : RecurringTransaction} (h : db.recurring? k org = some r) :
    db.recurring.Has RecurringTransaction.orgId org k :=
  Table.has_iff_filter.mpr ⟨r, h⟩

theorem importBatch?_has {k : ℕ} {b : ImportBatch} (h : db.importBatch? k org = some b) :
    db.importBatches.Has ImportBatch.orgId org k :=
  Table.has_iff_filter.mpr ⟨b, h⟩

theorem Db.Tenanted.transaction? (hdb : db.Tenanted) {k : ℕ} {t : Transaction}
    (h : db.transaction? k org = some t) : db.RowWithin t ∧ t.orgId = org :=
  ⟨hdb.row t (Table.get?_mem (Db.transaction?_eq_some.mp h).1), (Db.transaction?_eq_some.mp h).2⟩

theorem validateCategoryForType_has {k : ℕ} {type : TransactionType} {x : Unit}
    (h : validateCategoryForType db k org type = .ok x) :
    db.categories.Has Category.orgId org k := by
  unfold validateCategoryForType at h
  simp only [bind_eq_ok, orRaise_eq_ok] at h
  obtain ⟨c, hc, -⟩ := h
  exact category?_has hc

theorem validateTransferCategory_has {k : ℕ} {x : Unit}
    (h : validateTransferCategory db k org = .ok x) : db.categories.Has Category.orgId org k := by
  unfold validateTransferCategory at h
  simp only [bind_eq_ok, orRaise_eq_ok] at h
  obtain ⟨c, hc, -⟩ := h
  exact category?_has hc

/-- Two accounts locked in the order of their ids. -/
theorem lockAccounts_pair_has {a b : ℕ} {x : Unit}
    (h : lockAccounts db org [min a b, max a b] = .ok x) :
    db.accounts.Has Account.orgId org a ∧ db.accounts.Has Account.orgId org b := by
  rw [lockAccounts_eq_ok] at h
  rcases le_total a b with hle | hle
  · rw [min_eq_left hle, max_eq_right hle] at h
    exact ⟨account?_has (h a (by simp)), account?_has (h b (by simp))⟩
  · rw [min_eq_right hle, max_eq_left hle] at h
    exact ⟨account?_has (h a (by simp)), account?_has (h b (by simp))⟩

/-! ### Composite writes -/

namespace Db.WritesMany

/-- Storing a row and applying it to the balance of its account. -/
theorem post {t : Transaction} (horg : t.orgId = org) (h : db.RowWithin t) :
    db.WritesMany org (db.post t) :=
  .head (.credit db _ _ (horg ▸ h.account))
    (.single (.addRow _ t horg (h.mono (keepsRefs_credit db _ _))))

/-- Rewriting a row and moving the balances of its old and its new account. -/
theorem revise {t t' : Transaction} (horg : t'.orgId = org)
    (hold : db.transactions.Has Transaction.orgId org t'.id)
    (haccount : db.accounts.Has Account.orgId org t.accountId) (h : db.RowWithin t') :
    db.WritesMany org (db.revise t t') := by
  have hcredit := keepsRefs_credit db t.accountId (-t.settledAmount)
  refine .head (.credit db _ _ haccount) (.head (.putRow _ t' horg hold (h.mono hcredit))
    (.single (.credit _ _ _ ?_)))
  exact hcredit.accounts _ _ (horg ▸ h.account)

theorem restate {t t' : Transaction} (horg : t'.orgId = org)
    (hold : db.transactions.Has Transaction.orgId org t'.id)
    (haccount : db.accounts.Has Account.orgId org t.accountId) (h : db.RowWithin t') :
    db.WritesMany org (db.restate t t') :=
  .head (.credit db _ _ haccount)
    (.single (.putRow _ t' horg hold (h.mono (keepsRefs_credit db _ _))))

/-- Taking rows of the organisation off the balances. -/
theorem revertAll (hdb : db.Tenanted) {rows : List Transaction}
    (h : ∀ t ∈ rows, db.accounts.Has Account.orgId org t.accountId) :
    db.WritesMany org (db.revertAll rows) := by
  unfold Db.revertAll
  induction rows generalizing db with
  | nil => exact .refl
  | cons t rows ih =>
    have hfirst : Db.Writes org db (db.credit t.accountId (-t.settledAmount)) :=
      .credit db _ _ (h t List.mem_cons_self)
    refine .head hfirst (ih (hfirst.tenanted hdb) fun u hu => ?_)
    exact (keepsRefs_credit db _ _).accounts _ _ (h u (List.mem_cons_of_mem t hu))

theorem remove (hdb : db.Tenanted) {rows : List Transaction}
    (h : ∀ t ∈ rows, db.transaction? t.id org = some t) : db.WritesMany org (db.remove rows) := by
  have hrow : ∀ t ∈ rows, db.RowWithin t ∧ t.orgId = org := fun t ht => hdb.transaction? (h t ht)
  refine .tail (revertAll hdb fun t ht => (hrow t ht).2 ▸ (hrow t ht).1.account)
    (.deleteRows _ _ fun i hi => ?_)
  obtain ⟨t, ht, rfl⟩ := List.mem_map.mp hi
  rw [revertAll_transactions]
  exact transaction?_has (h t ht)

theorem deleteCascade (hdb : db.Tenanted) {tx : Transaction} {linkedTx : Option Transaction}
    (htx : db.transaction? tx.id org = some tx)
    (hlinked : ∀ p ∈ linkedTx, db.transaction? p.id org = some p) :
    db.WritesMany org (db.deleteCascade tx linkedTx) := by
  cases linkedTx with
  | none => exact remove hdb (by simpa using htx)
  | some p =>
    have hp := hlinked p rfl
    obtain ⟨htxw, htxo⟩ := hdb.transaction? htx
    obtain ⟨hpw, hpo⟩ := hdb.transaction? hp
    have hids : ∀ i ∈ [p.id, tx.id], db.transactions.Has Transaction.orgId org i := by
      simpa using ⟨transaction?_has hp, transaction?_has htx⟩
    unfold Db.deleteCascade
    split_ifs
    · exact .head (.credit db _ _ (htxo ▸ htxw.account))
        (.head (.credit _ _ _ ((keepsRefs_credit db _ _).accounts _ _ (hpo ▸ hpw.account)))
          (.single (.deleteRows _ _ hids)))
    · exact .single (.deleteRows _ _ hids)

/-- Linking two rows of the organisation. -/
theorem linkRows (hdb : db.Tenanted) {e i : Transaction} {cat : Option ℕ}
    (he : db.transaction? e.id org = some e) (hi : db.transaction? i.id org = some i)
    (hcat : ∀ c ∈ cat, db.categories.Has Category.orgId org c) :
    db.WritesMany org (db.linkRows e i cat) := by
  obtain ⟨hew, heo⟩ := hdb.transaction? he
  obtain ⟨hiw, hio⟩ := hdb.transaction? hi
  have hwithin : ∀ {t u : Transaction}, db.RowWithin t → t.orgId = org →
      db.transactions.Has Transaction.orgId org u.id → db.RowWithin (t.linkTo u.id cat) := by
    intro t u ht hto hu
    refine ⟨ht.account, ?_, ?_, ht.template, ht.batch⟩
    · cases cat with
      | none => exact ht.category
      | some c => exact hto ▸ hcat c rfl
    · rintro l ⟨rfl⟩
      exact hto ▸ hu
  have hfirst : Db.Writes org db (db.putTransaction (e.linkTo i.id cat)) :=
    .putRow db _ heo (transaction?_has he) (hwithin hew heo (transaction?_has hi))
  have hrows : db.transactions.KeepsOwners Transaction.orgId
      (db.transactions.put (e.linkTo i.id cat)) :=
    Table.keepsOwners_put (b := e) (Db.transaction?_eq_some.mp he).1 rfl
  refine .head hfirst (.single (.putRow _ _ hio (hrows _ _ (transaction?_has hi)) ?_))
  exact (hwithin hiw hio (transaction?_has he)).mono
    { Db.KeepsRefs.refl db with transactions := hrows }

end Db.WritesMany

/-! ### Creating and linking -/

theorem createTransactionNoCommit_writes {body : TransactionCreate} {imported manual : Bool}
    {fitid : Option String} {tx : Transaction}
    (h : createTransactionNoCommit db org body imported manual fitid = .ok (db', tx)) :
    db.WritesMany org db' := by
  obtain ⟨hacct, rfl, -⟩ := createTransactionNoCommit_ok h
  unfold createTransactionNoCommit at h
  simp only [↓unit_bind_eq_ok] at h
  exact .post rfl ⟨account?_has hacct, validateCategoryForType_has h.2.1,
    by simp [TransactionCreate.row],
    by simp [TransactionCreate.row], by simp [TransactionCreate.row]⟩

/-- The Transfer category that is looked up, and stored when it is missing, is one of the
organisation. -/
theorem getOrCreateTransferCategory_writes (db : Db) (org : ℕ) :
    db.WritesMany org (getOrCreateTransferCategory db org).1 ∧
      (getOrCreateTransferCategory db org).1.categories.Has Category.orgId org
        (getOrCreateTransferCategory db org).2 := by
  unfold getOrCreateTransferCategory
  split
  · next cat hfind =>
    have horg : cat.slug = some "transfer" ∧ cat.orgId = org := by
      simpa using List.find?_some hfind
    exact ⟨.refl, cat, Table.get?_of_mem (List.mem_of_find?_eq_some hfind), horg.2⟩
  · exact ⟨.single (.addCategory db _ rfl), Table.has_insert_next rfl⟩

theorem getOrCreateBalanceAdjustmentCategory_writes (db : Db) (org : ℕ) :
    db.WritesMany org (getOrCreateBalanceAdjustmentCategory db org).1 := by
  unfold getOrCreateBalanceAdjustmentCategory
  split
  · exact .refl
  · exact .single (.addCategory db _ rfl)

theorem transferCategory_writes {recategorize : Bool} {id cat : Option ℕ}
    (h : transferCategory db org recategorize id = .ok (db', cat)) :
    db.WritesMany org db' ∧ ∀ c ∈ cat, db'.categories.Has Category.orgId org c := by
  unfold transferCategory at h
  split at h
  · rw [pure_eq_ok, Prod.mk.injEq] at h
    obtain ⟨rfl, rfl⟩ := h
    exact ⟨.refl, by simp⟩
  · split at h
    · rw [pure_eq_ok, Prod.mk.injEq] at h
      obtain ⟨rfl, rfl⟩ := h
      obtain ⟨hwrites, hhas⟩ := getOrCreateTransferCategory_writes db org
      exact ⟨hwrites, by simpa using hhas⟩
    · simp only [bind_eq_ok, pure_eq_ok, Prod.mk.injEq] at h
      obtain ⟨_, hvalid, rfl, rfl⟩ := h
      exact ⟨.refl, by simpa using validateTransferCategory_has hvalid⟩

theorem linkPair_writes (hdb : db.Tenanted) {e i : Transaction} {recategorize : Bool}
    {id : Option ℕ} (he : db.transaction? e.id org = some e)
    (hi : db.transaction? i.id org = some i)
    (h : linkPair db e i recategorize id = .ok db') : db.WritesMany org db' := by
  have heorg : e.orgId = org := (Db.transaction?_eq_some.mp he).2
  unfold linkPair at h
  simp only [↓unit_bind_eq_ok, bind_eq_ok, saveTransaction_eq_ok, heorg] at h
  obtain ⟨-, ⟨db₁, cat⟩, hcat, db₂, ⟨-, rfl⟩, -, rfl⟩ := h
  obtain ⟨hwrites, hhas⟩ := transferCategory_writes hcat
  have hrows : ∀ k, db₁.transaction? k org = db.transaction? k org := fun k => by
    rw [Db.transaction?, (transferCategory_ok hcat).transactions, Db.transaction?]
  exact hwrites.trans (Db.WritesMany.linkRows (hwrites.tenanted hdb) (by rw [hrows, he])
    (by rw [hrows, hi]) hhas)

theorem adjustAccountBalance_writes {accountId : ℕ} {body : BalanceAdjustmentRequest}
    {today : Date} {tx : Transaction}
    (h : adjustAccountBalance db org accountId body today = .ok (db', tx)) :
    db.WritesMany org db' := by
  unfold adjustAccountBalance at h
  simp only [↓unit_bind_eq_ok, bind_eq_ok] at h
  obtain ⟨acct, -, -, txBody, -, hcreate⟩ := h
  exact (getOrCreateBalanceAdjustmentCategory_writes db org).trans
    (createTransactionNoCommit_writes hcreate)

theorem pairExistingTransactions_writes (hdb : db.Tenanted) {expenseTxId incomeTxId : ℕ}
    {recategorize : Bool} {id : Option ℕ}
    (h : pairExistingTransactions db org expenseTxId incomeTxId recategorize id = .ok db') :
    db.WritesMany org db' := by
  unfold pairExistingTransactions at h
  simp only [↓unit_bind_eq_ok, bind_eq_ok, orRaise_eq_ok, Db.rowsGet_lockRows] at h
  obtain ⟨-, -, e, ⟨he, -⟩, i, ⟨hi, -⟩, hlink⟩ := h
  refine linkPair_writes hdb ?_ ?_ hlink
  · rwa [Db.transaction?_id he]
  · rwa [Db.transaction?_id hi]

theorem convertLocked_writes (hdb : db.Tenanted) {sourceTxId destinationAccountId : ℕ}
    {recategorize : Bool} {id : Option ℕ}
    (h : convertLocked db org sourceTxId destinationAccountId recategorize id = .ok db') :
    db.WritesMany org db' := by
  unfold convertLocked at h
  simp only [↓unit_bind_eq_ok, bind_eq_ok, orRaise_eq_ok, Prod.exists, insertTransaction_eq_ok,
    applySettled_eq_ok] at h
  obtain ⟨source, hsource, -, -, -, hlock, -, db₁, partner, ⟨-, rfl, rfl⟩, db₂, ⟨-, rfl⟩, hlink⟩ :=
    h
  obtain ⟨hwithin, horg⟩ := hdb.transaction? hsource
  have hdst := (lockAccounts_pair_has hlock).2
  have hleg : db.RowWithin (partnerLeg org destinationAccountId source) :=
    ⟨hdst, horg ▸ hwithin.category,
      by simp [partnerLeg], by simp [partnerLeg], by simp [partnerLeg]⟩
  set leg := partnerLeg org destinationAccountId source
  have hpost : (db.addTransaction leg).credit leg.accountId leg.settledAmount = db.post leg := rfl
  rw [show ({ leg with id := db.transactions.next } : Transaction).accountId =
    leg.accountId from rfl,
    show ({ leg with id := db.transactions.next } : Transaction).settledAmount = leg.settledAmount
      from rfl, hpost] at hlink
  have hwrites : db.WritesMany org (db.post leg) := .post rfl hleg
  have hpartner : (db.post leg).transaction? db.transactions.next org =
      some { leg with id := db.transactions.next } :=
    Db.transaction?_eq_some.mpr ⟨Db.get?_post_next db leg, rfl⟩
  have hsource' : (db.post leg).transaction? source.id org = some source :=
    Db.transaction?_eq_some.mpr
      ⟨Table.get?_insert_of_some _ (Db.transaction?_self hsource), horg⟩
  refine hwrites.trans ?_
  split_ifs at hlink
  · exact linkPair_writes (hwrites.tenanted hdb) hsource' hpartner hlink
  · exact linkPair_writes (hwrites.tenanted hdb) hpartner hsource' hlink

theorem createTransferCategory_writes {id : Option ℕ} {categoryId : ℕ}
    (h : createTransferCategory db org id = .ok (db', categoryId)) :
    db.WritesMany org db' ∧ db'.categories.Has Category.orgId org categoryId := by
  cases id with
  | none =>
    rw [createTransferCategory, pure_eq_ok, Prod.ext_iff] at h
    obtain ⟨rfl, rfl⟩ := h
    exact getOrCreateTransferCategory_writes db org
  | some id =>
    simp only [createTransferCategory, bind_eq_ok, pure_eq_ok, Prod.mk.injEq] at h
    obtain ⟨_, hvalid, rfl, rfl⟩ := h
    exact ⟨.refl, validateTransferCategory_has hvalid⟩

/-- The two legs of a transfer, stored. -/
def Db.addLegs (db : Db) (org : ℕ) (body : TransferCreate) (categoryId : ℕ)
    (description : String) : Db :=
  (db.addTransaction
    (body.leg org body.fromAccountId categoryId description .expense)).addTransaction
    (body.leg org body.toAccountId categoryId description .income)

theorem addLegs_writes {body : TransferCreate} {categoryId : ℕ} {description : String}
    (hfrom : db.accounts.Has Account.orgId org body.fromAccountId)
    (hto : db.accounts.Has Account.orgId org body.toAccountId)
    (hcategory : db.categories.Has Category.orgId org categoryId) :
    db.WritesMany org (db.addLegs org body categoryId description) := by
  have hwithin : ∀ {d : Db} (a : ℕ) (type : TransactionType),
      d.accounts.Has Account.orgId org a → d.categories.Has Category.orgId org categoryId →
        d.RowWithin (body.leg org a categoryId description type) := fun a type ha hc =>
    ⟨ha, hc, by simp [TransferCreate.leg], by simp [TransferCreate.leg],
      by simp [TransferCreate.leg]⟩
  exact .head (.addRow db _ rfl (hwithin _ _ hfrom hcategory))
    (.single (.addRow _ _ rfl (hwithin _ _ hto hcategory)))

theorem addLegs_expense (db : Db) (org : ℕ) (body : TransferCreate) (categoryId : ℕ)
    (description : String) :
    (db.addLegs org body categoryId description).transaction? db.transactions.next org =
      some { body.leg org body.fromAccountId categoryId description .expense with
        id := db.transactions.next } :=
  Db.transaction?_eq_some.mpr ⟨Table.get?_insert_of_some _ (Table.get?_insert_next _ _), rfl⟩

theorem addLegs_income (db : Db) (org : ℕ) (body : TransferCreate) (categoryId : ℕ)
    (description : String) :
    (db.addLegs org body categoryId description).transaction? (db.transactions.next + 1) org =
      some { body.leg org body.toAccountId categoryId description .income with
        id := db.transactions.next + 1 } :=
  Db.transaction?_eq_some.mpr ⟨Table.get?_insert_next _ _, rfl⟩

theorem createTransfer_writes (hdb : db.Tenanted) {body : TransferCreate}
    (h : createTransfer db org body = .ok db') : db.WritesMany org db' := by
  unfold createTransfer at h
  simp only [↓unit_bind_eq_ok, bind_eq_ok, validateAccount_eq_ok, Prod.exists,
    insertTransaction_eq_ok] at h
  obtain ⟨-, hfrom, hto, db₁, categoryId, hcat, db₂, expenseTx, ⟨-, rfl, rfl⟩, db₃, incomeTx,
    ⟨-, rfl, rfl⟩, db₄, hlink, hend⟩ := h
  obtain ⟨hcats, hhas⟩ := createTransferCategory_writes hcat
  have haccounts : db₁.accounts = db.accounts := (createTransferCategory_ok hcat).accounts
  have hlegs : db.WritesMany org
      (db₁.addLegs org body categoryId (transferDescription db body)) :=
    hcats.trans (addLegs_writes (haccounts ▸ account?_has hfrom)
      (haccounts ▸ account?_has hto) hhas)
  have hlinked := hlegs.trans (linkPair_writes (hlegs.tenanted hdb)
    (by exact addLegs_expense db₁ org body categoryId _)
    (by exact addLegs_income db₁ org body categoryId _) hlink)
  split_ifs at hend
  · simp only [↓unit_bind_eq_ok, pure_eq_ok] at hend
    obtain ⟨hlock, rfl⟩ := hend
    obtain ⟨hfrom₄, hto₄⟩ := lockAccounts_pair_has hlock
    exact (hlinked.tail (.credit db₄ _ _ hfrom₄)).tail
      (.credit _ _ _ ((Db.keepsRefs_credit db₄ _ _).accounts _ _ hto₄))
  · rw [pure_eq_ok] at hend
    exact hend ▸ hlinked

/-! ### Editing and removing -/

/-- The category of an edited row is the one it had or was validated. -/
theorem checkCategoryEdit_has {tx : Transaction} {body : TransactionUpdate} {today : Date}
    {x : Unit} (htx : db.categories.Has Category.orgId org tx.categoryId)
    (h : checkCategoryEdit db org body (editTransaction tx body today) = .ok x) :
    db.categories.Has Category.orgId org (editTransaction tx body today).categoryId := by
  unfold checkCategoryEdit at h
  split_ifs at h with hset
  · exact validateCategoryForType_has h
  · rw [not_or, Option.not_isSome_iff_eq_none] at hset
    simpa [editTransaction, hset.1] using htx

theorem updateTransaction_writes (hdb : db.Tenanted) {id : ℕ} {body : TransactionUpdate}
    {today : Date} {edited : Transaction}
    (h : updateTransaction db org id body today = .ok (db', edited)) : db.WritesMany org db' := by
  obtain ⟨ids, h⟩ := updateTransaction_ok h
  obtain ⟨tx, htx, -, rfl, hacc, hcase⟩ := updateTransactionLocked_ok h
  obtain ⟨hwithin, horg⟩ := hdb.transaction? htx
  have hid : tx.id = id := Db.transaction?_id htx
  have hcategory : db.categories.Has Category.orgId org
      (editTransaction tx body today).categoryId := by
    unfold updateTransactionLocked at h
    simp only [↓unit_bind_eq_ok, bind_eq_ok, orRaise_eq_ok, Db.rowsGet_lockRows] at h
    obtain ⟨u, ⟨hu, -⟩, -, -, -, -, hcheck, -⟩ := h
    rw [htx, Option.some_inj] at hu
    subst hu
    exact checkCategoryEdit_has (horg ▸ hwithin.category) hcheck
  have haccount : db.accounts.Has Account.orgId org (editTransaction tx body today).accountId := by
    rcases hacc with hsame | hnew
    · exact hsame ▸ horg ▸ hwithin.account
    · exact account?_has hnew
  have hedited : db.RowWithin (editTransaction tx body today) :=
    ⟨horg.symm ▸ haccount, horg.symm ▸ hcategory, hwithin.link, hwithin.template, hwithin.batch⟩
  have hrevise : db.WritesMany org (db.revise tx (editTransaction tx body today)) :=
    .revise horg (hid.symm ▸ transaction?_has htx) (horg ▸ hwithin.account) hedited
  rcases hcase with ⟨-, rfl⟩ | ⟨p, hpair, ⟨-, -, rfl⟩ | ⟨amount, -, rfl⟩⟩
  · exact hrevise
  · exact hrevise
  · obtain ⟨hpwithin, hporg⟩ := hdb.transaction? hpair.partner_mem
    have htenanted := hrevise.tenanted hdb
    have hp : (db.revise tx (editTransaction tx body today)).transaction? p.id org = some p := by
      obtain ⟨hget, horg⟩ := Db.transaction?_eq_some.mp hpair.partner_mem
      refine Db.transaction?_eq_some.mpr ⟨?_, horg⟩
      rw [Db.get?_revise, if_neg (show p.id ≠ (editTransaction tx body today).id from hpair.id_ne)]
      exact hget
    have hrow := (htenanted.transaction? hp).1
    exact hrevise.trans (Db.WritesMany.revise (t := p) hporg (transaction?_has hp)
      (hporg ▸ hrow.account) ⟨hrow.account, hrow.category, hrow.link, hrow.template, hrow.batch⟩)

theorem unpairTransactions_writes (hdb : db.Tenanted) {id expenseCategoryId incomeCategoryId : ℕ}
    (h : unpairTransactions db org id expenseCategoryId incomeCategoryId = .ok db') :
    db.WritesMany org db' := by
  obtain ⟨-, -, e, i, -, -, he, hi, heorg, hiorg, -, -, -, rfl⟩ := unpairTransactions_ok h
  have hcategories : db.categories.Has Category.orgId org expenseCategoryId ∧
      db.categories.Has Category.orgId org incomeCategoryId := by
    unfold unpairTransactions unpairPreview at h
    simp only [bind_eq_ok, orRaise_eq_ok] at h
    obtain ⟨-, ⟨-, -, -, -, -, -, -, -, ce, hce, ci, hci, -⟩, -⟩ := h
    exact ⟨category?_has hce, category?_has hci⟩
  have hunlinked : ∀ {t : Transaction} {c : ℕ}, db.transactions.get? t.id = some t →
      t.orgId = org → db.categories.Has Category.orgId org c → db.RowWithin (t.unlink c) := by
    intro t c ht hto hc
    have hrow := hdb.row t (Table.get?_mem ht)
    exact ⟨hrow.account, hto ▸ hc, by simp [Transaction.unlink], hrow.template, hrow.batch⟩
  have hrows : db.transactions.KeepsOwners Transaction.orgId
      (db.putTransaction (e.unlink expenseCategoryId)).transactions :=
    Table.keepsOwners_put (b := e) he rfl
  have hkeeps : db.KeepsRefs (db.putTransaction (e.unlink expenseCategoryId)) :=
    { Db.KeepsRefs.refl db with transactions := hrows }
  have hfirst : Db.Writes org db (db.putTransaction (e.unlink expenseCategoryId)) :=
    .putRow db _ heorg ⟨e, he, heorg⟩ (hunlinked he heorg hcategories.1)
  exact .head hfirst (.single (.putRow _ (i.unlink incomeCategoryId) hiorg
    (hrows _ _ ⟨i, hi, hiorg⟩) ((hunlinked hi hiorg hcategories.2).mono hkeeps)))

theorem deleteTransaction_writes (hdb : db.Tenanted) {id : ℕ}
    (h : deleteTransaction db org id = .ok db') : db.WritesMany org db' := by
  obtain ⟨tx, htx, -, rfl⟩ := deleteTransaction_ok h
  refine .deleteCascade hdb ((Db.transaction?_id htx).symm ▸ htx) fun p hp => ?_
  obtain ⟨l, -, hl⟩ := Option.bind_eq_some_iff.mp hp
  exact (Db.transaction?_id hl).symm ▸ hl

theorem bulkDeleteTransactions_writes (hdb : db.Tenanted) {ids skipped : List ℕ} {n : ℕ}
    (h : bulkDeleteTransactions db org ids = .ok (db', n, skipped)) : db.WritesMany org db' := by
  rcases bulkDeleteTransactions_ok h with rfl | rfl
  · exact .refl
  · refine .remove hdb fun t ht => ?_
    obtain ⟨hget, -, horg, -⟩ := Db.mem_bulkRows.mp ht
    exact Db.transaction?_eq_some.mpr ⟨hget, horg⟩

theorem promoteToRecurring_writes (hdb : db.Tenanted) {id : ℕ} {body : PromoteToRecurringRequest}
    {today : Date} {tx : Transaction}
    (h : promoteToRecurring db org id body today = .ok (db', tx)) : db.WritesMany org db' := by
  unfold promoteToRecurring at h
  simp only [↓unit_bind_eq_ok, bind_eq_ok, orRaise_eq_ok, saveTransaction_eq_ok, pure_eq_ok,
    Prod.mk.injEq] at h
  obtain ⟨-, row, hrow, -, -, -, type, -, db₁, ⟨-, rfl⟩, rfl, -⟩ := h
  obtain ⟨hwithin, horg⟩ := hdb.transaction? hrow
  have hid : row.id = id := Db.transaction?_id hrow
  refine .head (.addTemplate db _ rfl ⟨horg ▸ hwithin.account, horg ▸ hwithin.category⟩)
    (.single (.putRow _ _ horg (hid.symm ▸ transaction?_has hrow) ?_))
  refine ⟨hwithin.account, hwithin.category, hwithin.link, ?_, hwithin.batch⟩
  rintro r ⟨rfl⟩
  exact Table.has_insert_next horg.symm

/-! ### Templates -/

theorem createRecurring_writes {body : RecurringCreate}
    (h : createRecurring db org body = .ok db') : db.WritesMany org db' := by
  unfold createRecurring at h
  simp only [↓unit_bind_eq_ok, validateAccount_eq_ok, pure_eq_ok] at h
  obtain ⟨hacct, hcategory, -, rfl⟩ := h
  exact .single (.addTemplate db _ rfl ⟨account?_has hacct, validateCategoryForType_has hcategory⟩)

/-- The template of an organisation and its references. -/
theorem Db.Tenanted.recurring? (hdb : db.Tenanted) {id : ℕ} {r : RecurringTransaction}
    (h : db.recurring? id org = some r) : db.TemplateWithin r ∧ r.orgId = org ∧ r.id = id := by
  simp only [Db.recurring?, Option.filter_eq_some_iff, decide_eq_true_eq] at h
  exact ⟨hdb.template r (Table.get?_mem h.1), h.2, Table.get?_id h.1⟩

/-- A successful edit of a template found it, and its account and category are its old ones or were
validated. -/
theorem updateRecurring_ok (hdb : db.Tenanted) {id : ℕ} {body : RecurringUpdate}
    (h : updateRecurring db org id body = .ok db') :
    ∃ r, db.recurring? id org = some r ∧
      db.accounts.Has Account.orgId org (editRecurring r body).accountId ∧
      db.categories.Has Category.orgId org (editRecurring r body).categoryId ∧
      db' = { db with recurring := db.recurring.put (editRecurring r body) } := by
  unfold updateRecurring at h
  simp only [bind_eq_ok, orRaise_eq_ok] at h
  obtain ⟨r, hr, h⟩ := h
  obtain ⟨hwithin, horg, -⟩ := hdb.recurring? hr
  have hcategory (h : (if body.type.isSome = true ∨ body.categoryId.isSome = true then
        validateCategoryForType db (editRecurring r body).categoryId org
          (editRecurring r body).type.toTransactionType >>= fun _ =>
            flushTemplate (editRecurring r body) >>= fun _ =>
              pure { db with recurring := db.recurring.put (editRecurring r body) }
      else flushTemplate (editRecurring r body) >>= fun _ =>
        pure { db with recurring := db.recurring.put (editRecurring r body) }) =
        (.ok db' : Except ServiceError Db)) :
      db.categories.Has Category.orgId org (editRecurring r body).categoryId ∧
        db' = { db with recurring := db.recurring.put (editRecurring r body) } := by
    split_ifs at h with hset
    · rw [unit_bind_eq_ok, unit_bind_eq_ok, pure_eq_ok] at h
      exact ⟨validateCategoryForType_has h.1, h.2.2.symm⟩
    · rw [not_or, Option.not_isSome_iff_eq_none, Option.not_isSome_iff_eq_none] at hset
      rw [unit_bind_eq_ok, pure_eq_ok] at h
      refine ⟨?_, h.2.symm⟩
      simpa [editRecurring, hset.2] using horg ▸ hwithin.category
  cases hbody : body.accountId with
  | none =>
    rw [hbody] at h
    refine ⟨r, hr, ?_, hcategory h⟩
    simpa [editRecurring, hbody] using horg ▸ hwithin.account
  | some a =>
    simp only [hbody, ↓unit_bind_eq_ok, validateAccount_eq_ok] at h
    refine ⟨r, hr, ?_, hcategory h.2⟩
    simpa [editRecurring, hbody] using account?_has h.1

theorem updateRecurring_writes (hdb : db.Tenanted) {id : ℕ} {body : RecurringUpdate}
    (h : updateRecurring db org id body = .ok db') : db.WritesMany org db' := by
  obtain ⟨r, hr, hacct, hcat, rfl⟩ := updateRecurring_ok hdb h
  obtain ⟨-, horg, hid⟩ := hdb.recurring? hr
  exact .single (.putTemplate db _ horg (hid.symm ▸ recurring?_has hr)
    ⟨horg.symm ▸ hacct, horg.symm ▸ hcat⟩)

theorem pendingOfTemplate_transaction? {id : ℕ} {today : Date} {t : Transaction}
    (h : t ∈ pendingOfTemplate db org id today) : db.transaction? t.id org = some t := by
  obtain ⟨hget, -, horg, -⟩ := mem_pendingOfTemplate.mp h
  exact Db.transaction?_eq_some.mpr ⟨hget, horg⟩

theorem stopRecurring_writes (hdb : db.Tenanted) {id : ℕ} {today : Date}
    (h : stopRecurring db org id today = .ok db') : db.WritesMany org db' := by
  obtain ⟨r, hr, rfl⟩ := stopRecurring_ok h
  obtain ⟨hwithin, horg, hid⟩ := hdb.recurring? hr
  have hput : Db.Writes org db
      { db with recurring := db.recurring.put { r with isActive := false } } :=
    .putTemplate db _ horg (hid.symm ▸ recurring?_has hr) ⟨hwithin.account, hwithin.category⟩
  exact .head hput (Db.WritesMany.remove (hput.tenanted hdb)
    fun t ht => pendingOfTemplate_transaction? ht)

theorem deleteRecurring_writes (hdb : db.Tenanted) {id : ℕ} {today : Date}
    (h : deleteRecurring db org id today = .ok db') : db.WritesMany org db' := by
  have hhas : db.recurring.Has RecurringTransaction.orgId org id := by
    unfold deleteRecurring at h
    simp only [bind_eq_ok, orRaise_eq_ok] at h
    obtain ⟨r, hr, -⟩ := h
    exact recurring?_has hr
  obtain ⟨hf, rfl⟩ := deleteRecurring_ok h
  have hrec : (db.remove (pendingOfTemplate db org id today)).recurring = db.recurring := by
    rw [Db.remove, Db.deleteTransactions_recurring, Db.revertAll_eq]
  have hdrop : Db.Writes org _ _ :=
    .dropTemplate (db.remove (pendingOfTemplate db org id today)) id hf (hrec.symm ▸ hhas)
  rw [hrec] at hdrop
  exact .tail (Db.WritesMany.remove hdb fun t ht => pendingOfTemplate_transaction? ht) hdrop

/-! ### Generation -/

theorem Db.keepsRefs_post (db : Db) (t : Transaction) : db.KeepsRefs (db.post t) :=
  (Db.keepsRefs_credit db _ _).trans
    { Db.KeepsRefs.refl (db.credit _ _) with transactions := Table.keepsOwners_insert _ t }

/-- The loop over the due dates of a template of the organisation. -/
theorem generateLoop_writes {today : Date} {fuel : ℕ} {r r' : RecurringTransaction}
    (hr : db.TemplateWithin r) (horg : r.orgId = org)
    (hhas : db.recurring.Has RecurringTransaction.orgId org r.id)
    (h : generateLoop org today fuel db r = .ok (db', r')) :
    db.WritesMany org db' ∧ db.KeepsRefs db' ∧ r' = { r with nextDueDate := r'.nextDueDate } := by
  induction fuel generalizing db r with
  | zero =>
    rw [generateLoop, pure_eq_ok, Prod.mk.injEq] at h
    obtain ⟨rfl, rfl⟩ := h
    exact ⟨.refl, .refl _, rfl⟩
  | succ fuel ih =>
    unfold generateLoop at h
    split_ifs at h
    · obtain ⟨db₁, hone, hrest⟩ := bind_eq_ok.mp h
      obtain ⟨-, rfl⟩ := generateOne_ok hone
      have hrow : db.RowWithin r.row := by
        refine ⟨hr.account, hr.category, by simp [RecurringTransaction.row], ?_,
          by simp [RecurringTransaction.row]⟩
        rintro x ⟨rfl⟩
        rw [show r.row.orgId = org from horg]
        exact hhas
      have hkeeps := Db.keepsRefs_post db r.row
      have hr₁ := hr.mono hkeeps
      have hnext : (db.post r.row).TemplateWithin
          { r with nextDueDate := advanceDate r.nextDueDate r.frequency } :=
        ⟨hr₁.account, hr₁.category⟩
      obtain ⟨hwrites, hkeeps', hr'⟩ := ih hnext horg (hkeeps.recurring _ _ hhas) hrest
      exact ⟨(Db.WritesMany.post horg hrow).trans hwrites, hkeeps.trans hkeeps', hr'⟩
    · rw [pure_eq_ok, Prod.mk.injEq] at h
      obtain ⟨rfl, rfl⟩ := h
      exact ⟨.refl, .refl _, rfl⟩

theorem generateTemplate_writes {today : Date} {r : RecurringTransaction}
    (hr : db.TemplateWithin r) (horg : r.orgId = org)
    (hhas : db.recurring.Has RecurringTransaction.orgId org r.id)
    (h : generateTemplate org today db r = .ok db') :
    db.WritesMany org db' ∧ db.KeepsRefs db' := by
  unfold generateTemplate at h
  simp only [bind_eq_ok, Prod.exists, pure_eq_ok] at h
  obtain ⟨db₁, r', hloop, rfl⟩ := h
  obtain ⟨hwrites, hkeeps, hr'⟩ := generateLoop_writes hr horg hhas hloop
  have hr₁ := hr.mono hkeeps
  have hhas' : db₁.recurring.Has RecurringTransaction.orgId org r'.id := by
    rw [hr']
    exact hkeeps.recurring _ _ hhas
  have horg' : r'.orgId = org := by rw [hr']; exact horg
  obtain ⟨r₀, hr₀, hr₀org⟩ := hhas'
  have hput : db₁.recurring.KeepsOwners RecurringTransaction.orgId (db₁.recurring.put r') :=
    Table.keepsOwners_put hr₀ (horg'.trans hr₀org.symm)
  refine ⟨hwrites.tail (.putTemplate db₁ r' horg' ⟨r₀, hr₀, hr₀org⟩ ?_),
    hkeeps.trans { Db.KeepsRefs.refl db₁ with recurring := hput }⟩
  rw [hr']
  exact ⟨hr₁.account, hr₁.category⟩

theorem generateDueTransactions_writes (hdb : db.Tenanted) {today : Date}
    (h : generateDueTransactions db org today = .ok db') : db.WritesMany org db' := by
  -- The loop runs over the templates read at its start, which stay where they are.
  suffices hloop : ∀ (l : List RecurringTransaction) (d : Db), db.WritesMany org d →
      (∀ r ∈ l, d.TemplateWithin r ∧ r.orgId = org ∧
        d.recurring.Has RecurringTransaction.orgId org r.id) →
      ∀ d', l.foldlM (generateTemplate org today) d = .ok d' → db.WritesMany org d' by
    refine hloop _ db .refl (fun r hr => ?_) db' h
    obtain ⟨hmem, hdue⟩ := List.mem_filter.mp hr
    have horg : r.orgId = org := (of_decide_eq_true hdue).1
    exact ⟨hdb.template r hmem, horg, r, Table.get?_of_mem hmem, horg⟩
  intro l
  induction l with
  | nil =>
    intro d hd _ d' h
    rw [List.foldlM_nil, pure_eq_ok] at h
    exact h ▸ hd
  | cons r l ih =>
    intro d hd hl d' h
    rw [List.foldlM_cons, bind_eq_ok] at h
    obtain ⟨d₁, hone, hrest⟩ := h
    obtain ⟨hr, horg, hhas⟩ := hl r List.mem_cons_self
    obtain ⟨hwrites, hkeeps⟩ := generateTemplate_writes hr horg hhas hone
    refine ih d₁ (hd.trans hwrites) (fun x hx => ?_) d' hrest
    obtain ⟨hx, hxorg, hxhas⟩ := hl x (List.mem_cons_of_mem r hx)
    exact ⟨hx.mono hkeeps, hxorg, hkeeps.recurring _ _ hxhas⟩

/-! ### Import -/

theorem createTransactionNoCommit_stored {body : TransactionCreate} {imported manual : Bool}
    {fitid : Option String} {tx : Transaction}
    (h : createTransactionNoCommit db org body imported manual fitid = .ok (db', tx)) :
    db'.transaction? tx.id org = some tx ∧
      ∀ u, db.transaction? u.id org = some u → db'.transaction? u.id org = some u := by
  obtain ⟨-, rfl, rfl⟩ := createTransactionNoCommit_ok h
  refine ⟨Db.transaction?_eq_some.mpr ⟨Db.get?_post_next _ _, rfl⟩, fun u hu => ?_⟩
  obtain ⟨hget, horg⟩ := Db.transaction?_eq_some.mp hu
  exact Db.transaction?_eq_some.mpr ⟨Table.get?_insert_of_some _ hget, horg⟩

theorem importLeg_writes {body : ImportConfirmRequest} {row : ImportConfirmRow} {tx : Transaction}
    (h : importLeg db org body row = .ok (db', tx)) :
    db.WritesMany org db' ∧ db'.transaction? tx.id org = some tx := by
  unfold importLeg at h
  simp only [bind_eq_ok] at h
  obtain ⟨txBody, -, hcreate⟩ := h
  exact ⟨createTransactionNoCommit_writes hcreate, (createTransactionNoCommit_stored hcreate).1⟩

theorem importLink_writes (hdb : db.Tenanted) {row : ImportConfirmRow} {leg other : Transaction}
    (hleg : db.transaction? leg.id org = some leg)
    (hother : db.transaction? other.id org = some other)
    (h : importLink db row leg other = .ok db') : db.WritesMany org db' := by
  unfold importLink at h
  split_ifs at h
  · exact linkPair_writes hdb hleg hother h
  · exact linkPair_writes hdb hother hleg h

theorem importPair_writes (hdb : db.Tenanted) {currency : String} {row : ImportConfirmRow}
    {partnerId : ℕ} {newTx : Transaction} (hnew : db.transaction? newTx.id org = some newTx)
    (h : importPair db org currency row partnerId newTx = .ok db') : db.WritesMany org db' := by
  unfold importPair at h
  simp only [↓unit_bind_eq_ok, bind_eq_ok, orRaise_eq_ok] at h
  obtain ⟨partner, hpartner, -, -, -, -, hlink⟩ := h
  exact importLink_writes hdb hnew ((Db.transaction?_id hpartner).symm ▸ hpartner) hlink

theorem importPartnerLeg_writes (hdb : db.Tenanted) {body : ImportConfirmRequest}
    {row : ImportConfirmRow} {partnerAccountId : ℕ} {csvLeg : Transaction}
    (hcsv : db.transaction? csvLeg.id org = some csvLeg)
    (h : importPartnerLeg db org body row partnerAccountId csvLeg = .ok db') :
    db.WritesMany org db' := by
  unfold importPartnerLeg at h
  simp only [bind_eq_ok, Prod.exists] at h
  obtain ⟨txBody, -, db₁, partner, hcreate, hlink⟩ := h
  have hwrites := createTransactionNoCommit_writes hcreate
  obtain ⟨hpartner, hkept⟩ := createTransactionNoCommit_stored hcreate
  exact hwrites.trans (importLink_writes (hwrites.tenanted hdb) (hkept _ hcsv) hpartner hlink)

/-- A row of an import that goes through. -/
theorem importRow_writes (hdb : db.Tenanted) {body : ImportConfirmRequest} {currency : String}
    {row : ImportConfirmRow} {loaded loaded' : Bool} {id : Option ℕ}
    (h : importRow db org body currency row loaded = .ok (db', id, loaded')) :
    db.WritesMany org db' := by
  unfold importRow at h
  split at h
  · simp only [importCreate, bind_eq_ok, flushingLeg_eq_ok, Prod.exists, pure_eq_ok,
      Prod.mk.injEq] at h
    obtain ⟨_, _, hleg, rfl, -⟩ := h
    exact (importLeg_writes hleg).1
  · simp only [importPairWithExisting, bind_eq_ok, flushingLeg_eq_ok, leavingLoaded_eq_ok,
      Prod.exists, pure_eq_ok, Prod.mk.injEq] at h
    obtain ⟨_, -, _, _, hleg, _, hpair, rfl, -⟩ := h
    obtain ⟨hwrites, hstored⟩ := importLeg_writes hleg
    exact hwrites.trans (importPair_writes (hwrites.tenanted hdb) hstored hpair)
  · simp only [importDropAsDuplicate, bind_eq_ok, pure_eq_ok, Prod.mk.injEq] at h
    obtain ⟨_, -, _, -, _, -, _, -, rfl, -⟩ := h
    exact .refl
  · unfold importCreateTransferPair at h
    simp only [↓unit_bind_eq_ok, bind_eq_ok, flushingLeg_eq_ok, leavingLoaded_eq_ok, Prod.exists,
      pure_eq_ok, Prod.mk.injEq] at h
    obtain ⟨_, -, _, -, -, -, -, -, _, _, hleg, _, hpair, rfl, -⟩ := h
    obtain ⟨hwrites, hstored⟩ := importLeg_writes hleg
    exact hwrites.trans (importPartnerLeg_writes (hwrites.tenanted hdb) hstored hpair)

theorem importStep_writes {start : Db} (hstart : start.Tenanted) {body : ImportConfirmRequest}
    {currency : String} {s : ImportState} (hs : start.WritesMany org s.db)
    (row : ImportConfirmRow) :
    start.WritesMany org (importStep org body currency s row).db := by
  unfold importStep
  split_ifs
  · exact hs
  · split
    · exact hs
    · next d id loaded hrow =>
      have hall := hs.trans (importRow_writes (hs.tenanted hstart) hrow)
      cases hact : row.action <;> exact hall

theorem importLoop_writes {start : Db} (hstart : start.Tenanted) {body : ImportConfirmRequest}
    {currency : String} (rows : List ImportConfirmRow) {s : ImportState}
    (hs : start.WritesMany org s.db) :
    start.WritesMany org (rows.foldl (importStep org body currency) s).db := by
  induction rows generalizing s with
  | nil => exact hs
  | cons row rows ih => exact ih (importStep_writes hstart hs row)

theorem createImportBatch_writes {userId accountId : ℕ} {format : ImportSourceFormat}
    {fileName : String} {ids : List ℕ} {batchId : ℕ}
    (haccount : db.accounts.Has Account.orgId org accountId)
    (h : createImportBatch db org userId accountId format fileName ids = .ok (db', batchId)) :
    db.WritesMany org db' := by
  unfold createImportBatch at h
  simp only [↓unit_bind_eq_ok, pure_eq_ok, Prod.mk.injEq] at h
  obtain ⟨-, rfl, -⟩ := h
  exact .head (.openBatch db _ rfl haccount)
    (.single (.assignBatch _ ids _ _ (Table.has_insert_next rfl)))

theorem executeImport_writes (hdb : db.Tenanted) {body : ImportConfirmRequest} {userId : Option ℕ}
    {response : ImportConfirmResponse}
    (h : executeImport db org body userId = .ok (db', response)) : db.WritesMany org db' := by
  unfold executeImport at h
  simp only [bind_eq_ok, orRaise_eq_ok, Prod.exists, pure_eq_ok, Prod.mk.injEq] at h
  obtain ⟨destination, hdestination, d, importId, hbatch, rfl, -⟩ := h
  have hloop : db.WritesMany org
      (body.rows.foldl (importStep org body destination.currency) { db := db }).db :=
    importLoop_writes hdb body.rows .refl
  unfold importBatchOf at hbatch
  split at hbatch
  · rw [pure_eq_ok, Prod.mk.injEq] at hbatch
    exact hbatch.1 ▸ hloop
  · split_ifs at hbatch
    · rw [pure_eq_ok, Prod.mk.injEq] at hbatch
      exact hbatch.1 ▸ hloop
    · simp only [bind_eq_ok, Prod.exists, pure_eq_ok, Prod.mk.injEq] at hbatch
      obtain ⟨d', batchId, hcreate, rfl, -⟩ := hbatch
      exact hloop.trans (createImportBatch_writes
        (hloop.accounts_keep _ _ (account?_has ⟨_, hdestination⟩)) hcreate)

/-! ### Reconciliation -/

/-- The category of a transitioned row is the one it had or was validated. -/
theorem transitionRow_has {batch batch' : ImportBatch} {tx : Transaction}
    {tr : ReconciliationTransition} (htx : db.categories.Has Category.orgId org tx.categoryId)
    (h : transitionRow db org batch tx tr = .ok (db', batch')) :
    db.categories.Has Category.orgId org (tr.result tx).categoryId := by
  by_cases hstate : tr.toState = .edited
  · rw [result_of_edited tx hstate]
    cases hedits : tr.edits with
    | none => exact htx
    | some edits =>
      cases hcategory : edits.categoryId with
      | none => simpa [ReconciliationEdits.apply, hcategory] using htx
      | some c =>
        unfold transitionRow applyPayload applyEdits at h
        simp only [hstate, hedits, hcategory, ↓unit_bind_eq_ok, bind_eq_ok] at h
        obtain ⟨-, _, ⟨-, hvalid, -⟩, -⟩ := h
        simpa [ReconciliationEdits.apply, hcategory] using validateCategoryForType_has hvalid
  · rwa [ReconciliationTransition.result, if_neg hstate]

theorem reconcileOne_writes {s s' : Db × ImportBatch} (hdb : s.1.Tenanted) (hwf : s.1.WellFormed)
    {tr : ReconciliationTransition} (h : reconcileOne org s tr = .ok s') :
    s.1.WritesMany org s'.1 ∧ s'.1.importBatches = s.1.importBatches ∧ s'.2.id = s.2.id ∧
      s'.2.orgId = s.2.orgId ∧ s'.2.accountId = s.2.accountId := by
  obtain ⟨tx, htx, hbatch, ⟨-, rfl⟩ | ⟨hne, -, htr, rfl, hmatch⟩⟩ :=
    reconcileOne_result (fun tx htx hb => hwf.manual_of_batch htx hb) h
  · exact ⟨.refl, rfl, rfl, rfl, rfl⟩
  obtain ⟨hwithin, horg⟩ := hdb.transaction? htx
  have hid : tx.id = tr.transactionId := Db.transaction?_id htx
  have hcategory : s.1.categories.Has Category.orgId org (tr.result tx).categoryId := by
    unfold reconcileOne at h
    simp only [↓unit_bind_eq_ok, bind_eq_ok, orRaise_eq_ok] at h
    obtain ⟨-, u, hu, -, h⟩ := h
    rw [htx, Option.some_inj] at hu
    subst hu
    rw [if_neg hne] at h
    exact transitionRow_has (horg ▸ hwithin.category) h
  have horg' : (tr.result tx).orgId = org := htr.orgId_eq.trans horg
  have hrow : s.1.RowWithin (tr.result tx) := by
    refine ⟨?_, horg'.symm ▸ hcategory, fun l hl => ?_, fun r hr => ?_, fun b hb => ?_⟩
    · rw [htr.accountId_eq, htr.orgId_eq]
      exact hwithin.account
    · rw [horg']
      by_cases hmatched : tr.toState = .matched
      · obtain ⟨m, target, hm, htarget⟩ := hmatch hmatched
        rw [hm, Option.some_inj] at hl
        exact hl ▸ transaction?_has htarget
      · exact horg ▸ hwithin.link l (htr.link_eq hmatched ▸ hl)
    · rw [htr.frame] at hr
      rw [htr.orgId_eq]
      exact hwithin.template r hr
    · rw [htr.orgId_eq]
      exact hwithin.batch b (htr.batch_eq ▸ hb)
  refine ⟨Db.WritesMany.restate horg' ?_ (horg ▸ hwithin.account) hrow, rfl, rfl, rfl, rfl⟩
  rw [htr.id_eq, hid]
  exact transaction?_has htx

theorem reconcileRequest_writes (hdb : db.Tenanted) (hwf : db.WellFormed) {batchId : ℕ}
    {body : ReconcileBatchRequest} {response : ReconcileBatchResponse}
    (h : reconcileRequest db org batchId body = .ok (db', response)) : db.WritesMany org db' := by
  obtain ⟨batch, db₁, batch₁, hbatch, hloop, rfl⟩ := reconcileRequest_ok h
  obtain ⟨hget, horg⟩ : db.importBatches.get? batchId = some batch ∧ batch.orgId = org := by
    simpa [Db.importBatch?, Option.filter_eq_some_iff] using hbatch
  have hid : batch.id = batchId := Table.get?_id hget
  obtain ⟨-, hwrites, hsame, hid₁, horg₁, haccount₁⟩ := foldlM_invariant
    (fun s => s.1.WellFormed ∧ db.WritesMany org s.1 ∧ s.1.importBatches = db.importBatches ∧
      s.2.id = batch.id ∧ s.2.orgId = batch.orgId ∧ s.2.accountId = batch.accountId)
    (fun s tr s' ⟨hwf, hwrites, hsame, hid, horg, haccount⟩ hone => by
      obtain ⟨hwrites', hsame', hid', horg', haccount'⟩ :=
        reconcileOne_writes (hwrites.tenanted hdb) hwf hone
      exact ⟨reconcileOne_wellFormed hwf hone, hwrites.trans hwrites', hsame'.trans hsame,
        hid'.trans hid, horg'.trans horg, haccount'.trans haccount⟩)
    body.transitions (db, batch) (db₁, batch₁) ⟨hwf, .refl, rfl, rfl, rfl, rfl⟩ hloop
  have hclosed : (closeBatchIfComplete db₁ batch₁).orgId = batch₁.orgId ∧
      (closeBatchIfComplete db₁ batch₁).accountId = batch₁.accountId := by
    unfold closeBatchIfComplete
    split_ifs <;> exact ⟨rfl, rfl⟩
  have haccount : db.accounts.Has Account.orgId org batch.accountId :=
    horg ▸ hdb.batch batch (Table.get?_mem hget)
  refine hwrites.tail (.putBatch db₁ _ (hclosed.1.trans (horg₁.trans horg)) ?_ ?_)
  · rw [closeBatchIfComplete_id, hid₁, hid, hsame]
    exact importBatch?_has hbatch
  · rw [hclosed.2, haccount₁]
    exact hwrites.accounts_keep _ _ haccount

/-! ### All requests -/

theorem createAccount_writes {body : AccountCreate} {today : Date}
    (h : createAccount db org body today = .ok db') : db.WritesMany org db' := by
  unfold createAccount at h
  simp only [↓unit_bind_eq_ok, bind_eq_ok, orRaise_eq_ok, pure_eq_ok] at h
  obtain ⟨type, htype, -, -, rfl⟩ := h
  exact .single (.openAccount db _ rfl (Table.has_iff_filter.mpr ⟨type, htype⟩))

/-- A successful request is a sequence of writes of its organisation. -/
theorem Request.step_writes {r : Request} (hdb : db.Tenanted) (hwf : db.WellFormed)
    (h : Request.step db r = .ok db') : db.WritesMany r.org db' := by
  cases r with
  | createAccount org body today => exact createAccount_writes h
  | create org body imported =>
    obtain ⟨_, h⟩ := map_fst_eq_ok.mp h
    exact createTransactionNoCommit_writes h
  | createNoCommit org body imported manual fitid =>
    obtain ⟨_, h⟩ := map_fst_eq_ok.mp h
    exact createTransactionNoCommit_writes h
  | transfer org body => exact createTransfer_writes hdb h
  | update org id body today =>
    obtain ⟨_, h⟩ := map_fst_eq_ok.mp h
    exact updateTransaction_writes hdb h
  | delete org id => exact deleteTransaction_writes hdb h
  | bulkDelete org ids =>
    obtain ⟨_, h⟩ := map_fst_eq_ok.mp h
    exact bulkDeleteTransactions_writes hdb h
  | pair org e i recategorize cat => exact pairExistingTransactions_writes hdb h
  | convert org source dst recategorize cat =>
    exact convertLocked_writes hdb (unit_bind_eq_ok.mp h).2
  | unpair org id ec ic => exact unpairTransactions_writes hdb h
  | promote org id body today =>
    obtain ⟨_, h⟩ := map_fst_eq_ok.mp h
    exact promoteToRecurring_writes hdb h
  | adjust org account body today =>
    obtain ⟨_, h⟩ := map_fst_eq_ok.mp h
    exact adjustAccountBalance_writes h
  | executeImport org body user =>
    obtain ⟨_, h⟩ := map_fst_eq_ok.mp h
    exact executeImport_writes hdb h
  | generateDue org today => exact generateDueTransactions_writes hdb h
  | createRecurring org body => exact createRecurring_writes h
  | updateRecurring org id body => exact updateRecurring_writes hdb h
  | stopRecurring org id today => exact stopRecurring_writes hdb h
  | deleteRecurring org id today => exact deleteRecurring_writes hdb h
  | reconcile org batchId body =>
    obtain ⟨_, h⟩ := map_fst_eq_ok.mp h
    exact reconcileRequest_writes hdb hwf h

end Pfv
