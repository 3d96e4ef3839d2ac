import Pfv.Ledger.Effects
import Pfv.Services.Accounts
import Pfv.Services.Recurring
import Pfv.Services.Transfers

/-!
# What a successful operation did

For each operation of the transaction service: what its checks established and how the database
changed, when it succeeds. Everything proved about the operations later is derived from these
lemmas, without looking into the operations again.

## Main definitions

* `Db.MayAddCategory`: the only side effect of looking up a system category.
* `Db.Linkable`, `Db.linkRows`: the conditions of a pair and the two writes that link it.
* `Db.revise`: replace a row, moving the balances from the old to the new one.

## Main results

* `createTransactionNoCommit_ok`, `linkPair_ok`, `updateTransactionLocked_ok`,
  `deleteTransactionLocked_ok`, `bulkDeleteLocked_ok`, `unpairLocked_ok`, and the operations built
  from them.
-/

namespace Pfv

namespace Db

/-! ### Effects shared by several operations -/

def addCategory (db : Db) (c : Category) : Db :=
  { db with categories := db.categories.insert c }

/-- Looking up a system category stores it when it is missing and changes nothing else. -/
def MayAddCategory (db db' : Db) : Prop :=
  db' = db ∨ ∃ c, db' = db.addCategory c

theorem MayAddCategory.transactions {db db' : Db} (h : db.MayAddCategory db') :
    db'.transactions = db.transactions := by
  rcases h with rfl | ⟨c, rfl⟩ <;> rfl

theorem MayAddCategory.accounts {db db' : Db} (h : db.MayAddCategory db') :
    db'.accounts = db.accounts := by
  rcases h with rfl | ⟨c, rfl⟩ <;> rfl

/-- The conditions on two rows of the ledger that may be linked as a transfer pair. -/
structure Linkable (db : Db) (e i : Transaction) : Prop where
  expense_mem : db.transactions.get? e.id = some e
  income_mem : db.transactions.get? i.id = some i
  expense_manual : e.isManualAdjustment = false
  income_manual : i.isManualAdjustment = false
  org_eq : e.orgId = i.orgId
  expense_type : e.type = .expense
  income_type : i.type = .income
  account_ne : e.accountId ≠ i.accountId
  amount_eq : |e.amount| = |i.amount|
  expense_unlinked : e.linkedTransactionId = none
  income_unlinked : i.linkedTransactionId = none
  currency_eq : db.currencyOf e.accountId = db.currencyOf i.accountId

theorem Linkable.id_ne {db : Db} {e i : Transaction} (h : db.Linkable e i) : e.id ≠ i.id := by
  intro hid
  have heq : e = i := Table.get?_inj h.expense_mem h.income_mem hid
  exact h.account_ne (by rw [heq])

theorem Linkable.congr {db db' : Db} {e i : Transaction} (h : db.Linkable e i)
    (htransactions : db'.transactions = db.transactions)
    (hcurrency : ∀ k, db'.currencyOf k = db.currencyOf k) : db'.Linkable e i :=
  { h with
    expense_mem := htransactions ▸ h.expense_mem
    income_mem := htransactions ▸ h.income_mem
    currency_eq := by rw [hcurrency, hcurrency, h.currency_eq] }

/-- Link two rows to each other. -/
def linkRows (db : Db) (e i : Transaction) (categoryId : Option ℕ) : Db :=
  (db.putTransaction (e.linkTo i.id categoryId)).putTransaction (i.linkTo e.id categoryId)

/-- Replace a row and move the balances from the old row to the new one. -/
def revise (db : Db) (t t' : Transaction) : Db :=
  ((db.credit t.accountId (-t.settledAmount)).putTransaction t').credit t'.accountId
    t'.settledAmount

@[simp] theorem revise_transactions (db : Db) (t t' : Transaction) :
    (db.revise t t').transactions = db.transactions.put t' := rfl

theorem get?_revise (db : Db) (t t' : Transaction) (i : ℕ) :
    (db.revise t t').transactions.get? i =
      if i = t'.id then (db.transactions.get? i).map fun _ => t' else db.transactions.get? i :=
  Table.get?_put _ _ _

theorem keepsAccounts_revise (db : Db) (t t' : Transaction) : db.KeepsAccounts (db.revise t t') :=
  ((keepsAccounts_credit db _ _).trans (.of_eq rfl)).trans (keepsAccounts_credit _ _ _)

theorem credit_comm (db : Db) (a b : ℕ) (x y : ℤ) :
    (db.credit a x).credit b y = (db.credit b y).credit a x := by
  have h : ((db.credit a x).credit b y).accounts = ((db.credit b y).credit a x).accounts :=
    Table.modify_comm db.accounts (f := fun acct => { acct with balance := acct.balance + x })
      (g := fun acct => { acct with balance := acct.balance + y }) (fun _ => rfl) (fun _ => rfl)
      fun acct => by simp only [add_right_comm]
  calc (db.credit a x).credit b y
      = { db with accounts := ((db.credit a x).credit b y).accounts } := rfl
    _ = { db with accounts := ((db.credit b y).credit a x).accounts } := by rw [h]
    _ = (db.credit b y).credit a x := rfl

theorem drift_revise {db : Db} {t t' : Transaction} {k : ℕ} (hk : (db.accounts.get? k).isSome)
    (ht : db.transactions.get? t'.id = some t) (w : Transaction → ℤ) :
    (db.revise t t').drift w k = db.drift w k +
      (if t.accountId = k then w t - t.settledAmount else 0) -
      (if t'.accountId = k then w t' - t'.settledAmount else 0) := by
  have hput :
      (((db.credit t.accountId (-t.settledAmount)).putTransaction t').accounts.get? k).isSome
      := by
    rwa [putTransaction_accounts, isSome_get?_credit]
  have hmem : (db.credit t.accountId (-t.settledAmount)).transactions.get? t'.id = some t := ht
  rw [revise, drift_credit hput, drift_putTransaction hmem, drift_credit hk]
  split_ifs <;> ring

end Db

/-! ### Creating -/

theorem createTransactionNoCommit_ok {db db' : Db} {org : ℕ} {body : TransactionCreate}
    {isImported isManualAdjustment : Bool} {fitid : Option String} {tx : Transaction}
    (h : createTransactionNoCommit db org body isImported isManualAdjustment fitid =
      .ok (db', tx)) :
    (∃ acct, db.account? body.accountId org = some acct) ∧
      db' = db.post (body.row org isImported isManualAdjustment fitid) ∧
      tx = { body.row org isImported isManualAdjustment fitid with
        id := db.transactions.next } := by
  unfold createTransactionNoCommit at h
  simp only [↓unit_bind_eq_ok, bind_eq_ok, validateAccount_eq_ok,
    postSettled_eq_ok, insertPosted_eq_ok] at h
  obtain ⟨hacct, -, db₁, ⟨-, rfl⟩, -, -, rfl, rfl⟩ := h
  exact ⟨hacct, rfl, rfl⟩

/-- A row that was created passed the flush. -/
theorem createTransactionNoCommit_flushable {db db' : Db} {org : ℕ} {body : TransactionCreate}
    {isImported isManualAdjustment : Bool} {fitid : Option String} {tx : Transaction}
    (h : createTransactionNoCommit db org body isImported isManualAdjustment fitid =
      .ok (db', tx)) : (body.row org isImported isManualAdjustment fitid).Flushable := by
  unfold createTransactionNoCommit at h
  simp only [↓unit_bind_eq_ok, bind_eq_ok, insertPosted_eq_ok] at h
  obtain ⟨-, -, _, -, -, hflush, -⟩ := h
  exact hflush

theorem createAccount_ok {db db' : Db} {org : ℕ} {body : AccountCreate} {today : Date}
    (h : createAccount db org body today = .ok db') :
    db' = { db with accounts := db.accounts.insert (body.row org today) } := by
  unfold createAccount at h
  simp only [↓unit_bind_eq_ok, bind_eq_ok, pure_eq_ok] at h
  obtain ⟨_, -, -, -, rfl⟩ := h
  rfl

theorem getOrCreateBalanceAdjustmentCategory_mayAdd (db : Db) (org : ℕ) :
    db.MayAddCategory (getOrCreateBalanceAdjustmentCategory db org).1 := by
  unfold getOrCreateBalanceAdjustmentCategory
  split
  · exact .inl rfl
  · exact .inr ⟨_, rfl⟩

theorem getOrCreateTransferCategory_mayAdd (db : Db) (org : ℕ) :
    db.MayAddCategory (getOrCreateTransferCategory db org).1 := by
  unfold getOrCreateTransferCategory
  split
  · exact .inl rfl
  · exact .inr ⟨_, rfl⟩

/-- An adjustment posts a manual row on the account, for the difference of the balances. -/
theorem adjustAccountBalance_ok {db db' : Db} {org accountId : ℕ}
    {body : BalanceAdjustmentRequest} {today : Date} {tx : Transaction}
    (h : adjustAccountBalance db org accountId body today = .ok (db', tx)) :
    ∃ (db₁ : Db) (txBody : TransactionCreate), db.MayAddCategory db₁ ∧
      (∃ acct, db₁.account? accountId org = some acct) ∧ txBody.accountId = accountId ∧
      (txBody.row org false true none).Flushable ∧ db' = db₁.post (txBody.row org false true none) ∧
      tx = { txBody.row org false true none with id := db₁.transactions.next } := by
  unfold adjustAccountBalance at h
  simp only [↓unit_bind_eq_ok, bind_eq_ok] at h
  obtain ⟨acct, -, -, txBody, hbody, hcreate⟩ := h
  obtain ⟨hacct, hdb, htx⟩ := createTransactionNoCommit_ok hcreate
  simp only [adjustmentBody, bind_eq_ok, pure_eq_ok] at hbody
  obtain ⟨_, -, _, -, rfl⟩ := hbody
  exact ⟨_, _, getOrCreateBalanceAdjustmentCategory_mayAdd db org, hacct, rfl,
    createTransactionNoCommit_flushable hcreate, hdb, htx⟩

/-! ### Linking -/

theorem transferCategory_ok {db db' : Db} {org : ℕ} {recategorize : Bool} {id id' : Option ℕ}
    (h : transferCategory db org recategorize id = .ok (db', id')) : db.MayAddCategory db' := by
  unfold transferCategory at h
  split at h
  · rw [pure_eq_ok, Prod.mk.injEq] at h
    exact .inl h.1.symm
  · split at h
    · rw [pure_eq_ok, Prod.mk.injEq] at h
      exact h.1 ▸ getOrCreateTransferCategory_mayAdd db org
    · simp only [bind_eq_ok, pure_eq_ok, Prod.mk.injEq] at h
      obtain ⟨-, -, rfl, -⟩ := h
      exact .inl rfl

/-- A successful link found two linkable rows and linked them. -/
theorem linkPair_ok {db db' : Db} {e i : Transaction} {recategorize : Bool} {id : Option ℕ}
    (he : db.transactions.get? e.id = some e) (hi : db.transactions.get? i.id = some i)
    (h : linkPair db e i recategorize id = .ok db') :
    db.Linkable e i ∧ ∃ db₁ cat, db.MayAddCategory db₁ ∧ db' = db₁.linkRows e i cat := by
  unfold linkPair checkPair at h
  simp only [↓unit_bind_eq_ok, bind_eq_ok, raiseIf_eq_ok,
    saveTransaction_eq_ok, not_or, not_not, Bool.not_eq_true] at h
  obtain ⟨⟨⟨hme, hmi⟩, horg, hte, hti, hacc, hamt, hle, hli, hcur⟩,
    ⟨db₁, cat⟩, hcat, db₂, ⟨-, rfl⟩, -, rfl⟩ := h
  rw [Option.isSome_eq_false_iff, Option.isNone_iff_eq_none] at hle hli
  exact ⟨⟨he, hi, hme, hmi, horg, hte, hti, hacc, hamt, hle, hli, hcur⟩, db₁, cat,
    transferCategory_ok hcat, rfl⟩

/-- A successful link without recategorising links the rows and changes nothing else. -/
theorem linkPair_false_ok {db db' : Db} {e i : Transaction} {id : Option ℕ}
    (he : db.transactions.get? e.id = some e) (hi : db.transactions.get? i.id = some i)
    (h : linkPair db e i false id = .ok db') : db.Linkable e i ∧ db' = db.linkRows e i none := by
  refine ⟨(linkPair_ok he hi h).1, ?_⟩
  unfold linkPair transferCategory at h
  simp only [if_true, pure_bind, ↓unit_bind_eq_ok, bind_eq_ok, saveTransaction_eq_ok] at h
  obtain ⟨-, db₂, ⟨-, rfl⟩, -, rfl⟩ := h
  rfl

theorem pairExistingTransactions_ok {db db' : Db} {org expenseTxId incomeTxId : ℕ}
    {recategorize : Bool} {id : Option ℕ}
    (h : pairExistingTransactions db org expenseTxId incomeTxId recategorize id = .ok db') :
    ∃ e i db₁ cat, db.transaction? expenseTxId org = some e ∧
      db.transaction? incomeTxId org = some i ∧ db.Linkable e i ∧ db.MayAddCategory db₁ ∧
      db' = db₁.linkRows e i cat := by
  unfold pairExistingTransactions at h
  simp only [↓unit_bind_eq_ok, bind_eq_ok, orRaise_eq_ok,
    Db.rowsGet_lockRows] at h
  obtain ⟨-, -, e, ⟨he, -⟩, i, ⟨hi, -⟩, hlink⟩ := h
  obtain ⟨hlinkable, db₁, cat, hcat, hdb⟩ := linkPair_ok (Db.transaction?_self he)
    (Db.transaction?_self hi) hlink
  exact ⟨e, i, db₁, cat, he, hi, hlinkable, hcat, hdb⟩

/-! ### Converting, unpairing and creating transfers -/

/-- A conversion posts the partner leg of the source row and links the two. -/
theorem convertLocked_ok {db db' : Db} {org sourceTxId destinationAccountId : ℕ}
    {recategorize : Bool} {id : Option ℕ}
    (h : convertLocked db org sourceTxId destinationAccountId recategorize id = .ok db') :
    ∃ source e i db₁ cat, db.transaction? sourceTxId org = some source ∧
      source.linkedTransactionId = none ∧
      (∃ acct, db.account? destinationAccountId org = some acct) ∧
      (db.post (partnerLeg org destinationAccountId source)).Linkable e i ∧
      (e.id = source.id ∧ i.id = db.transactions.next ∨
        e.id = db.transactions.next ∧ i.id = source.id) ∧
      (db.post (partnerLeg org destinationAccountId source)).MayAddCategory db₁ ∧
      db' = db₁.linkRows e i cat := by
  unfold convertLocked at h
  simp only [↓unit_bind_eq_ok, bind_eq_ok, orRaise_eq_ok, raiseIf_eq_ok,
    lockAccounts_eq_ok, Prod.exists, insertTransaction_eq_ok, applySettled_eq_ok] at h
  obtain ⟨source, hsource, hunlinked, -, -, hlock, -, db₁, partner, ⟨-, rfl, rfl⟩, db₂,
    ⟨-, rfl⟩, hlink⟩ := h
  have hdst : ∃ acct, db.account? destinationAccountId org = some acct := by
    refine hlock destinationAccountId ?_
    rcases le_total source.accountId destinationAccountId with hle | hle
    · simp [max_eq_right hle]
    · simp [min_eq_right hle]
  rw [Option.isSome_iff_ne_none, not_not] at hunlinked
  -- The applied row is the one just inserted.
  let leg := partnerLeg org destinationAccountId source
  have hpost : (db.addTransaction leg).credit leg.accountId leg.settledAmount = db.post leg := rfl
  have hleg : (db.post leg).transactions.get? db.transactions.next =
      some { leg with id := db.transactions.next } := by
    rw [Db.get?_post, if_pos rfl]
  have hsrc : (db.post leg).transactions.get? source.id = some source :=
    Table.get?_insert_of_some _ (Db.transaction?_self hsource)
  split_ifs at hlink
  · obtain ⟨hlinkable, db₃, cat, hcat, hdb⟩ := linkPair_ok hsrc hleg (hpost ▸ hlink)
    exact ⟨source, _, _, db₃, cat, hsource, hunlinked, hdst, hlinkable, .inl ⟨rfl, rfl⟩, hcat, hdb⟩
  · obtain ⟨hlinkable, db₃, cat, hcat, hdb⟩ := linkPair_ok hleg hsrc (hpost ▸ hlink)
    exact ⟨source, _, _, db₃, cat, hsource, hunlinked, hdst, hlinkable, .inr ⟨rfl, rfl⟩, hcat, hdb⟩

/-- An unpair clears the links of an expense and an income row that have the two given ids. -/
theorem unpairLocked_ok {db db' : Db} {org id linked expenseCategoryId incomeCategoryId : ℕ}
    (h : unpairLocked db org id linked expenseCategoryId incomeCategoryId = .ok db') :
    ∃ e i, db.transactions.get? e.id = some e ∧ db.transactions.get? i.id = some i ∧
      e.orgId = org ∧ i.orgId = org ∧ e.type = .expense ∧ i.type = .income ∧
      (e.id = id ∧ i.id = linked ∨ e.id = linked ∧ i.id = id) ∧
      db' = (db.putTransaction (e.unlink expenseCategoryId)).putTransaction
        (i.unlink incomeCategoryId) := by
  unfold unpairLocked at h
  simp only [↓unit_bind_eq_ok, bind_eq_ok, raiseIf_eq_ok, orRaise_eq_ok,
    saveTransaction_eq_ok, not_not] at h
  obtain ⟨hlen, e, he, i, hi, db₁, ⟨-, rfl⟩, -, rfl⟩ := h
  obtain ⟨heget, heids, heorg⟩ := Db.mem_lockRows.mp (List.mem_of_find?_eq_some he)
  obtain ⟨higet, hiids, hiorg⟩ := Db.mem_lockRows.mp (List.mem_of_find?_eq_some hi)
  have het : e.type = .expense := by simpa using List.find?_some he
  have hit : i.type = .income := by simpa using List.find?_some hi
  refine ⟨e, i, heget, higet, heorg, hiorg, het, hit, ?_, rfl⟩
  have hne : e.id ≠ i.id := by
    intro hid
    have heq : e = i := Table.get?_inj heget higet hid
    rw [heq, hit] at het
    exact absurd het (by decide)
  simp only [List.mem_cons, List.not_mem_nil, or_false] at heids hiids
  rcases heids with h₁ | h₁ <;> rcases hiids with h₂ | h₂
  · exact absurd (h₁.trans h₂.symm) hne
  · exact .inl ⟨h₁, h₂⟩
  · exact .inr ⟨h₁, h₂⟩
  · exact absurd (h₁.trans h₂.symm) hne

theorem createTransferCategory_ok {db db' : Db} {org : ℕ} {id : Option ℕ} {categoryId : ℕ}
    (h : createTransferCategory db org id = .ok (db', categoryId)) : db.MayAddCategory db' := by
  cases id with
  | none =>
    rw [createTransferCategory, pure_eq_ok] at h
    have hfst : (getOrCreateTransferCategory db org).1 = db' := congrArg Prod.fst h
    exact hfst ▸ getOrCreateTransferCategory_mayAdd db org
  | some id =>
    simp only [createTransferCategory, bind_eq_ok, pure_eq_ok, Prod.mk.injEq] at h
    obtain ⟨-, -, rfl, -⟩ := h
    exact .inl rfl

/-- The database with the two legs of a transfer posted. -/
def Db.postLegs (db : Db) (org : ℕ) (body : TransferCreate) (categoryId : ℕ)
    (description : String) : Db :=
  (db.post (body.leg org body.fromAccountId categoryId description .expense)).post
    (body.leg org body.toAccountId categoryId description .income)

/-- A transfer posts its two legs and links them. -/
theorem createTransfer_ok {db db' : Db} {org : ℕ} {body : TransferCreate}
    (h : createTransfer db org body = .ok db') :
    ∃ db₁ categoryId description e i, description.length ≤ 255 ∧ db.MayAddCategory db₁ ∧
      (∃ acct, db.account? body.fromAccountId org = some acct) ∧
      (∃ acct, db.account? body.toAccountId org = some acct) ∧
      (db₁.postLegs org body categoryId description).Linkable e i ∧
      db' = (db₁.postLegs org body categoryId description).linkRows e i none := by
  unfold createTransfer at h
  simp only [↓unit_bind_eq_ok, bind_eq_ok, raiseIf_eq_ok, validateAccount_eq_ok,
    Prod.exists, insertTransaction_eq_ok] at h
  obtain ⟨-, hfrom, hto, db₁, categoryId, hcat, db₂, expenseTx, ⟨hflush, rfl, rfl⟩, db₃, incomeTx,
    ⟨-, rfl, rfl⟩, db₄, hlink, hdb⟩ := h
  set description := transferDescription db body
  set legE := body.leg org body.fromAccountId categoryId description .expense with hlegE
  set legI := body.leg org body.toAccountId categoryId description .income with hlegI
  have he : ((db₁.addTransaction legE).addTransaction legI).transactions.get?
      db₁.transactions.next = some { legE with id := db₁.transactions.next } :=
    Table.get?_insert_of_some _ (Table.get?_insert_next _ _)
  have hi : ((db₁.addTransaction legE).addTransaction legI).transactions.get?
      (db₁.addTransaction legE).transactions.next =
        some { legI with id := (db₁.addTransaction legE).transactions.next } :=
    Table.get?_insert_next _ _
  obtain ⟨hlinkable, rfl⟩ := linkPair_false_ok he hi hlink
  -- The legs are stored and linked first and applied to the balances last.
  refine ⟨db₁, categoryId, description, _, _, hflush.2.1, createTransferCategory_ok hcat,
    hfrom, hto, hlinkable.congr rfl fun k => by simp [Db.postLegs], ?_⟩
  by_cases hsettled : body.status = .settled
  · rw [if_pos hsettled] at hdb
    simp only [↓unit_bind_eq_ok, pure_eq_ok] at hdb
    rw [← hdb.2]
    have hE : legE.settledAmount = -body.amount.cents := if_pos hsettled
    have hI : legI.settledAmount = body.amount.cents := if_pos hsettled
    simp only [Db.postLegs, Db.post, ← hlegE, ← hlegI, hE, hI]
    rfl
  · rw [if_neg hsettled, pure_eq_ok] at hdb
    rw [← hdb]
    have hE : legE.settledAmount = 0 := if_neg hsettled
    have hI : legI.settledAmount = 0 := if_neg hsettled
    simp only [Db.postLegs, Db.post, ← hlegE, ← hlegI, hE, hI, Db.credit_zero]

/-! ### Editing -/

/-- A transfer leg `tx` of an organisation, its edited form and its partner, after the guards of
an edit. -/
structure EditedPair (db : Db) (org : ℕ) (tx edited partner : Transaction) : Prop where
  link : tx.linkedTransactionId = some partner.id
  partner_mem : db.transaction? partner.id org = some partner
  back : partner.linkedTransactionId = some tx.id
  id_ne : partner.id ≠ tx.id
  type_eq : edited.type = tx.type
  account_ne : edited.accountId ≠ partner.accountId
  currency : edited.accountId = tx.accountId ∨
    db.currencyOf edited.accountId = db.currencyOf partner.accountId

theorem Db.revise_revise (db : Db) (t t' u u' : Transaction) :
    (((((db.credit t.accountId (-t.settledAmount)).credit u.accountId
      (-u.settledAmount)).putTransaction t').putTransaction u').credit t'.accountId
        t'.settledAmount).credit u'.accountId u'.settledAmount = (db.revise t t').revise u u' := by
  have h := Db.credit_comm (db.credit t.accountId (-t.settledAmount)) u.accountId t'.accountId
    (-u.settledAmount) t'.settledAmount
  calc _ = (((((db.credit t.accountId (-t.settledAmount)).credit u.accountId
          (-u.settledAmount)).credit t'.accountId t'.settledAmount).putTransaction
            t').putTransaction u').credit u'.accountId u'.settledAmount := rfl
    _ = (((((db.credit t.accountId (-t.settledAmount)).credit t'.accountId
          t'.settledAmount).credit u.accountId (-u.settledAmount)).putTransaction
            t').putTransaction u').credit u'.accountId u'.settledAmount := by rw [h]
    _ = _ := rfl

theorem writeEdit_none_ok {db db' : Db} {tx edited : Transaction}
    (h : writeEdit db tx edited none = .ok db') : db' = db.revise tx edited := by
  unfold writeEdit at h
  simp only [↓unit_bind_eq_ok, bind_eq_ok, pure_eq_ok, revertSettled_eq_ok, saveTransaction_eq_ok,
    applySettled_eq_ok] at h
  obtain ⟨_, ⟨-, rfl⟩, _, rfl, -, _, ⟨-, rfl⟩, _, rfl, _, ⟨-, rfl⟩, rfl⟩ := h
  rfl

theorem writeEdit_some_ok {db db' : Db} {tx edited p p' : Transaction}
    (h : writeEdit db tx edited (some (p, p')) = .ok db') :
    db' = (db.revise tx edited).revise p p' := by
  unfold writeEdit at h
  simp only [↓unit_bind_eq_ok, bind_eq_ok, revertSettled_eq_ok, saveTransaction_eq_ok,
    applySettled_eq_ok] at h
  obtain ⟨_, ⟨-, rfl⟩, _, ⟨-, rfl⟩, -, _, ⟨-, rfl⟩, _, ⟨-, rfl⟩, _, ⟨-, rfl⟩, -, rfl⟩ := h
  exact Db.revise_revise db tx edited p p'

/-- The guards on the references of an edit: the account of the edited row exists, and that of a
transfer leg has the currency of the partner's. -/
theorem checkReferences_ok {db : Db} {org : ℕ} {body : TransactionUpdate} {tx : Transaction}
    {partner : Option Transaction} (today : Date)
    (h : checkReferences db org body tx partner = .ok ()) :
    ((editTransaction tx body today).accountId = tx.accountId ∨
      ∃ acct, db.account? (editTransaction tx body today).accountId org = some acct) ∧
    ∀ p, partner = some p → (editTransaction tx body today).type = tx.type ∧
      ((editTransaction tx body today).accountId = tx.accountId ∨
        db.currencyOf (editTransaction tx body today).accountId = db.currencyOf p.accountId) := by
  cases partner with
  | none =>
    refine ⟨?_, by simp⟩
    cases hbody : body.accountId with
    | none => exact .inl (by simp [editTransaction, hbody])
    | some a =>
      simp only [checkReferences, hbody] at h
      split_ifs at h with ha
      · exact .inl (by simp [editTransaction, hbody, ha])
      · exact .inr (by simpa [editTransaction, hbody] using validateAccount_eq_ok.mp h)
  | some p =>
    unfold checkReferences checkLinkedEdit at h
    rw [unit_bind_eq_ok, raiseIf_eq_ok] at h
    obtain ⟨htype, h⟩ := h
    have htype' : (editTransaction tx body today).type = tx.type := by
      rw [Option.not_isSome_iff_eq_none] at htype
      simp [editTransaction, htype]
    cases hbody : body.accountId with
    | none =>
      have hacc : (editTransaction tx body today).accountId = tx.accountId := by
        simp [editTransaction, hbody]
      exact ⟨.inl hacc, fun _ _ => ⟨htype', .inl hacc⟩⟩
    | some a =>
      have hacc : (editTransaction tx body today).accountId = a := by
        simp [editTransaction, hbody]
      simp only [hbody, ↓unit_bind_eq_ok, bind_eq_ok, orRaise_eq_ok, raiseIf_eq_ok, not_not] at h
      obtain ⟨acct, hacct, -, hcur⟩ := h
      rw [hacc]
      refine ⟨.inr ⟨acct, hacct⟩, ?_⟩
      rintro q ⟨rfl⟩
      refine ⟨htype', .inr ?_⟩
      rw [← hcur, Db.currencyOf, (Db.account?_eq_some.mp hacct).1, Option.map_some]

/-- A successful update revised the row, and its partner when the amount of a transfer leg was
changed. -/
theorem updateTransactionLocked_ok {db db' : Db} {org id : ℕ} {body : TransactionUpdate}
    {today : Date} {ids : List ℕ} {edited : Transaction}
    (h : updateTransactionLocked db org id body today ids = .ok (db', edited)) :
    ∃ tx, db.transaction? id org = some tx ∧ tx.isManualAdjustment = false ∧
      edited = editTransaction tx body today ∧
      (edited.accountId = tx.accountId ∨
        ∃ acct, db.account? edited.accountId org = some acct) ∧
      (tx.linkedTransactionId = none ∧ db' = db.revise tx edited ∨
        ∃ p, EditedPair db org tx edited p ∧
          (body.amount = none ∧ |tx.amount| = |p.amount| ∧ db' = db.revise tx edited ∨
            ∃ amount, body.amount = some amount ∧
              db' = (db.revise tx edited).revise p { p with amount := amount.cents })) := by
  unfold updateTransactionLocked at h
  simp only [↓unit_bind_eq_ok, bind_eq_ok, orRaise_eq_ok, raiseIf_eq_ok, Bool.not_eq_true,
    Db.rowsGet_lockRows] at h
  obtain ⟨tx, ⟨htx, -⟩, hmanual, hfound, hback, href, -, -, db₁, hwrite, hpair⟩ := h
  obtain ⟨hacc, hpartner⟩ := checkReferences_ok today href
  cases hlink : tx.linkedTransactionId with
  | none =>
    simp only [hlink, Option.bind_none, mirrorOf] at hwrite hpair
    rw [pure_eq_ok, Prod.mk.injEq] at hpair
    obtain ⟨rfl, rfl⟩ := hpair
    exact ⟨tx, htx, hmanual, rfl, hacc, .inl ⟨hlink, writeEdit_none_ok hwrite⟩⟩
  | some l =>
    simp only [hlink, Option.any_some, Option.isNone_eq_false_iff] at hfound
    obtain ⟨p, hp⟩ := Option.isSome_iff_exists.mp hfound
    obtain ⟨hpmem, -⟩ := Db.rowsGet_lockRows.mp hp
    obtain rfl : p.id = l := Db.transaction?_id hpmem
    simp only [hlink, Option.bind_some, hp, Option.any_some, decide_eq_false_iff_not, ne_eq,
      not_not] at hback hwrite hpair hpartner
    obtain ⟨htype, hcur⟩ := hpartner p rfl
    simp only [checkPairAfterEdit, ↓unit_bind_eq_ok, raiseIf_eq_ok, pure_eq_ok, not_not,
      Prod.mk.injEq] at hpair
    obtain ⟨⟨-, hne, hamt, -⟩, rfl, rfl⟩ := hpair
    have hedited : (editTransaction tx body today).id = tx.id := rfl
    -- A row linked to itself is its own partner, on its own account.
    have hid : p.id ≠ tx.id := by
      intro hid
      cases hbody : body.amount <;> simp [mirrorOf, hbody, hedited, hid] at hne
    rw [hedited, if_neg hid] at hne hamt
    cases hbody : body.amount with
    | none =>
      simp only [mirrorOf, hbody, Option.map_none, Option.getD_none] at hne hamt hwrite
      have hsame : (editTransaction tx body today).amount = tx.amount := by
        simp [editTransaction, hbody]
      exact ⟨tx, htx, hmanual, rfl, hacc, .inr ⟨p, ⟨hlink, hpmem, hback, hid, htype, hne, hcur⟩,
        .inl ⟨rfl, hsame ▸ hamt, writeEdit_none_ok hwrite⟩⟩⟩
    | some amount =>
      simp only [mirrorOf, hbody, hedited, if_neg hid, Option.map_some, Option.getD_some]
        at hne hwrite
      exact ⟨tx, htx, hmanual, rfl, hacc, .inr ⟨p, ⟨hlink, hpmem, hback, hid, htype, hne, hcur⟩,
        .inr ⟨amount, rfl, writeEdit_some_ok hwrite⟩⟩⟩

/-- The checks on a written edit. -/
theorem writeEdit_checks {db db' : Db} {tx edited : Transaction}
    {mirror : Option (Transaction × Transaction)} (h : writeEdit db tx edited mirror = .ok db') :
    edited.Flushable ∧ edited.settledDate.any (· < edited.date) = false := by
  unfold writeEdit at h
  cases mirror <;>
    simp only [↓unit_bind_eq_ok, bind_eq_ok, raiseIf_eq_ok, saveTransaction_eq_ok,
      Bool.not_eq_true] at h
  · obtain ⟨_, -, _, -, hdates, _, ⟨hflush, -⟩, -⟩ := h
    exact ⟨hflush, hdates⟩
  · obtain ⟨_, -, _, -, hdates, _, ⟨hflush, -⟩, -⟩ := h
    exact ⟨hflush, hdates⟩

/-- A written edit has a settled date when it is settled, and none before its date. -/
theorem writeEdit_dates {db db' : Db} {tx edited : Transaction}
    {mirror : Option (Transaction × Transaction)} (h : writeEdit db tx edited mirror = .ok db') :
    (edited.status = .settled → edited.settledDate.isSome) ∧
      ∀ d, edited.settledDate = some d → edited.date ≤ d := by
  obtain ⟨hflush, hdates⟩ := writeEdit_checks h
  refine ⟨hflush.1, fun d hd => ?_⟩
  rw [hd, Option.any_some, decide_eq_false_iff_not, Date.lt_iff, not_lt] at hdates
  exact hdates

/-- A written edit is no transfer when it is settled: the balance has no sign for one. -/
theorem writeEdit_type {db db' : Db} {tx edited : Transaction}
    {mirror : Option (Transaction × Transaction)} (h : writeEdit db tx edited mirror = .ok db') :
    edited.status = .settled → edited.type ≠ .transfer := by
  unfold writeEdit at h
  cases mirror <;>
    simp only [↓unit_bind_eq_ok, bind_eq_ok, applySettled_eq_ok] at h
  · obtain ⟨_, -, _, -, -, _, -, _, -, _, ⟨htype, -⟩, -⟩ := h
    exact htype
  · obtain ⟨_, -, _, -, -, _, -, _, -, _, ⟨htype, -⟩, -⟩ := h
    exact htype

/-- A successful update wrote the edited row. -/
theorem updateTransactionLocked_writes {db db' : Db} {org id : ℕ} {body : TransactionUpdate}
    {today : Date} {ids : List ℕ} {edited : Transaction}
    (h : updateTransactionLocked db org id body today ids = .ok (db', edited)) :
    ∃ tx mirror db₁, writeEdit db tx edited mirror = .ok db₁ := by
  unfold updateTransactionLocked at h
  simp only [↓unit_bind_eq_ok, bind_eq_ok] at h
  obtain ⟨tx, -, -, -, -, -, -, -, db₁, hwrite, hpair⟩ := h
  have hedited : edited = editTransaction tx body today := by
    split at hpair
    · simp only [pure_eq_ok, Prod.mk.injEq] at hpair
      exact hpair.2.symm
    · simp only [↓unit_bind_eq_ok, pure_eq_ok, Prod.mk.injEq] at hpair
      exact hpair.2.2.symm
  rw [hedited]
  exact ⟨tx, _, db₁, hwrite⟩

theorem updateTransactionLocked_dates {db db' : Db} {org id : ℕ} {body : TransactionUpdate}
    {today : Date} {ids : List ℕ} {edited : Transaction}
    (h : updateTransactionLocked db org id body today ids = .ok (db', edited)) :
    (edited.status = .settled → edited.settledDate.isSome) ∧
      ∀ d, edited.settledDate = some d → edited.date ≤ d := by
  obtain ⟨tx, mirror, db₁, hwrite⟩ := updateTransactionLocked_writes h
  exact writeEdit_dates hwrite

end Pfv
