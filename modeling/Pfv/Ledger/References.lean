import Pfv.Base.Slices
import Pfv.Ledger.Effects
import Pfv.Ledger.Removal
import Pfv.Services.Recurring
import Pfv.Services.Reconciliation

/-!
# References within an organisation

Every row of the ledger belongs to an organisation. This file says what one organisation may write,
one write at a time, and that such a write lets no reference of a row leave its organisation and
does not touch the rows of the others.

## Main definitions

* `Db.Tenanted`: the references of every row lead to rows of its own organisation.
* `Db.Writes org`: one write to the rows of an organisation.
* `Db.view o`: the rows of an organisation.

## Main results

* `Db.Writes.tenanted`: a write keeps references within their organisations.
* `Db.Writes.view_eq`: a write leaves the rows of the other organisations.
-/

namespace Pfv

namespace Db

/-! ### References -/

/-- The references of a row lead to rows of its organisation. -/
structure RowWithin (db : Db) (t : Transaction) : Prop where
  account : db.accounts.Has Account.orgId t.orgId t.accountId
  category : db.categories.Has Category.orgId t.orgId t.categoryId
  link : ∀ l, t.linkedTransactionId = some l →
    db.transactions.Has Transaction.orgId t.orgId l
  template : ∀ r, t.recurringId = some r →
    db.recurring.Has RecurringTransaction.orgId t.orgId r
  batch : ∀ b, t.importBatchId = some b → db.importBatches.Has ImportBatch.orgId t.orgId b

structure TemplateWithin (db : Db) (r : RecurringTransaction) : Prop where
  account : db.accounts.Has Account.orgId r.orgId r.accountId
  category : db.categories.Has Category.orgId r.orgId r.categoryId

/-- The references of every row lead to rows of its own organisation. -/
structure Tenanted (db : Db) : Prop where
  account : ∀ a ∈ db.accounts.rows, db.accountTypes.Has AccountType.orgId a.orgId a.accountTypeId
  row : ∀ t ∈ db.transactions.rows, db.RowWithin t
  template : ∀ r ∈ db.recurring.rows, db.TemplateWithin r
  batch : ∀ b ∈ db.importBatches.rows, db.accounts.Has Account.orgId b.orgId b.accountId

/-- Every row is still there, under its organisation. -/
structure KeepsRefs (db db' : Db) : Prop where
  accountTypes : db.accountTypes.KeepsOwners AccountType.orgId db'.accountTypes
  accounts : db.accounts.KeepsOwners Account.orgId db'.accounts
  categories : db.categories.KeepsOwners Category.orgId db'.categories
  transactions : db.transactions.KeepsOwners Transaction.orgId db'.transactions
  recurring : db.recurring.KeepsOwners RecurringTransaction.orgId db'.recurring
  importBatches : db.importBatches.KeepsOwners ImportBatch.orgId db'.importBatches

variable {db db' : Db} {org o : ℕ}

theorem KeepsRefs.refl (db : Db) : db.KeepsRefs db :=
  ⟨.refl _ _, .refl _ _, .refl _ _, .refl _ _, .refl _ _, .refl _ _⟩

theorem KeepsRefs.trans {db'' : Db} (h : db.KeepsRefs db') (h' : db'.KeepsRefs db'') :
    db.KeepsRefs db'' where
  accountTypes o i hi := h'.accountTypes o i (h.accountTypes o i hi)
  accounts o i hi := h'.accounts o i (h.accounts o i hi)
  categories o i hi := h'.categories o i (h.categories o i hi)
  transactions o i hi := h'.transactions o i (h.transactions o i hi)
  recurring o i hi := h'.recurring o i (h.recurring o i hi)
  importBatches o i hi := h'.importBatches o i (h.importBatches o i hi)

theorem RowWithin.mono {t : Transaction} (h : db.RowWithin t) (hkeeps : db.KeepsRefs db') :
    db'.RowWithin t where
  account := hkeeps.accounts _ _ h.account
  category := hkeeps.categories _ _ h.category
  link l hl := hkeeps.transactions _ _ (h.link l hl)
  template r hr := hkeeps.recurring _ _ (h.template r hr)
  batch b hb := hkeeps.importBatches _ _ (h.batch b hb)

theorem TemplateWithin.mono {r : RecurringTransaction} (h : db.TemplateWithin r)
    (hkeeps : db.KeepsRefs db') : db'.TemplateWithin r :=
  ⟨hkeeps.accounts _ _ h.account, hkeeps.categories _ _ h.category⟩

/-- A change that keeps all rows keeps the references within when the rows it adds and the rows it
rewrites do. -/
theorem Tenanted.of_keepsRefs (h : db.Tenanted) (hkeeps : db.KeepsRefs db')
    (haccount : ∀ a ∈ db'.accounts.rows, (∃ a₀ ∈ db.accounts.rows, a.orgId = a₀.orgId ∧
      a.accountTypeId = a₀.accountTypeId) ∨
        db.accountTypes.Has AccountType.orgId a.orgId a.accountTypeId)
    (hrow : ∀ t ∈ db'.transactions.rows, t ∈ db.transactions.rows ∨ db'.RowWithin t)
    (htemplate : ∀ r ∈ db'.recurring.rows, r ∈ db.recurring.rows ∨ db.TemplateWithin r)
    (hbatch : ∀ b ∈ db'.importBatches.rows, b ∈ db.importBatches.rows ∨
      db.accounts.Has Account.orgId b.orgId b.accountId) : db'.Tenanted where
  account a ha := by
    refine hkeeps.accountTypes _ _ ?_
    rcases haccount a ha with ⟨a₀, ha₀, horg, htype⟩ | hnew
    · rw [horg, htype]
      exact h.account a₀ ha₀
    · exact hnew
  row t ht := (hrow t ht).elim (fun hold => (h.row t hold).mono hkeeps) id
  template r hr := ((htemplate r hr).elim (h.template r) id).mono hkeeps
  batch b hb := hkeeps.accounts _ _ ((hbatch b hb).elim (h.batch b) id)

/-! ### The writes of an organisation -/

/-- One write to the rows of an organisation, whose references stay in the organisation. -/
inductive Writes (org : ℕ) : Db → Db → Prop
  | openAccount (db : Db) (a : Account) (horg : a.orgId = org)
      (htype : db.accountTypes.Has AccountType.orgId org a.accountTypeId) :
      Writes org db { db with accounts := db.accounts.insert a }
  | credit (db : Db) (k : ℕ) (x : ℤ) (h : db.accounts.Has Account.orgId org k) :
      Writes org db (db.credit k x)
  | addCategory (db : Db) (c : Category) (horg : c.orgId = org) :
      Writes org db { db with categories := db.categories.insert c }
  | addTemplate (db : Db) (r : RecurringTransaction) (horg : r.orgId = org)
      (h : db.TemplateWithin r) : Writes org db { db with recurring := db.recurring.insert r }
  | putTemplate (db : Db) (r : RecurringTransaction) (horg : r.orgId = org)
      (hold : db.recurring.Has RecurringTransaction.orgId org r.id) (h : db.TemplateWithin r) :
      Writes org db { db with recurring := db.recurring.put r }
  | dropTemplate (db : Db) (id : ℕ) (hf)
      (h : db.recurring.Has RecurringTransaction.orgId org id) :
      Writes org db
        { db with
          recurring := db.recurring.filter (·.id ≠ id)
          transactions := db.transactions.mapRows (Transaction.detachFrom id) hf }
  | addRow (db : Db) (t : Transaction) (horg : t.orgId = org) (h : db.RowWithin t) :
      Writes org db (db.addTransaction t)
  | putRow (db : Db) (t : Transaction) (horg : t.orgId = org)
      (hold : db.transactions.Has Transaction.orgId org t.id) (h : db.RowWithin t) :
      Writes org db (db.putTransaction t)
  | deleteRows (db : Db) (ids : List ℕ)
      (h : ∀ i ∈ ids, db.transactions.Has Transaction.orgId org i) :
      Writes org db (db.deleteTransactions ids)
  | openBatch (db : Db) (b : ImportBatch) (horg : b.orgId = org)
      (h : db.accounts.Has Account.orgId org b.accountId) :
      Writes org db { db with importBatches := db.importBatches.insert b }
  | assignBatch (db : Db) (ids : List ℕ) (b : ℕ) (hf)
      (h : db.importBatches.Has ImportBatch.orgId org b) :
      Writes org db
        { db with transactions := db.transactions.mapRows (Transaction.assignBatch ids org b) hf }
  | putBatch (db : Db) (b : ImportBatch) (horg : b.orgId = org)
      (hold : db.importBatches.Has ImportBatch.orgId org b.id)
      (h : db.accounts.Has Account.orgId org b.accountId) :
      Writes org db { db with importBatches := db.importBatches.put b }

/-- Any number of writes of an organisation. -/
abbrev WritesMany (org : ℕ) : Db → Db → Prop :=
  Relation.ReflTransGen (Writes org)

theorem keepsRefs_credit (db : Db) (k : ℕ) (x : ℤ) : db.KeepsRefs (db.credit k x) :=
  { KeepsRefs.refl db with
    accounts := Table.keepsOwners_modify (by exact fun _ => rfl) (by exact fun _ => rfl) }

theorem detachFrom_orgId (id : ℕ) (t : Transaction) : (t.detachFrom id).orgId = t.orgId := by
  unfold Transaction.detachFrom
  split_ifs <;> rfl

theorem assignBatch_orgId (ids : List ℕ) (org b : ℕ) (t : Transaction) :
    (t.assignBatch ids org b).orgId = t.orgId := by
  unfold Transaction.assignBatch
  split_ifs <;> rfl

theorem unlinkFrom_orgId (ids : List ℕ) (t : Transaction) :
    (unlinkFrom ids t).orgId = t.orgId := by
  rw [unlinkFrom_eq]

/-- Deleting rows clears the links to them. -/
theorem Tenanted.deleteTransactions (h : db.Tenanted) (ids : List ℕ) :
    (db.deleteTransactions ids).Tenanted where
  account := h.account
  template r hr := ⟨(h.template r hr).account, (h.template r hr).category⟩
  batch := h.batch
  row u hu := by
    obtain ⟨-, t, ht, rfl⟩ := get?_deleteTransactions_eq_some.mp (Table.get?_of_mem hu)
    have hrow := h.row t (Table.get?_mem ht)
    rw [unlinkFrom_eq]
    refine ⟨hrow.account, hrow.category, fun l hl => ?_, hrow.template, hrow.batch⟩
    obtain ⟨hl, hids⟩ := unlinkFrom_link_eq_some.mp hl
    obtain ⟨v, hv, hvo⟩ := hrow.link l hl
    exact ⟨unlinkFrom ids v, get?_deleteTransactions_eq_some.mpr ⟨hids, v, hv, rfl⟩,
      (unlinkFrom_orgId ids v).trans hvo⟩

/-- Deleting a template detaches its rows. -/
theorem Tenanted.dropTemplate (h : db.Tenanted) (id : ℕ) (hf) :
    Tenanted { db with
      recurring := db.recurring.filter (·.id ≠ id)
      transactions := db.transactions.mapRows (Transaction.detachFrom id) hf } where
  account := h.account
  template r hr :=
    have hr := h.template r (List.mem_of_mem_filter hr)
    ⟨hr.account, hr.category⟩
  batch := h.batch
  row u hu := by
    obtain ⟨t, ht, rfl⟩ := List.mem_map.mp hu
    have hrow := h.row t ht
    have hlink : ∀ l, t.linkedTransactionId = some l →
        (db.transactions.mapRows (Transaction.detachFrom id) hf).Has Transaction.orgId t.orgId l :=
      fun l hl => Table.keepsOwners_mapRows (detachFrom_orgId id) _ _ (hrow.link l hl)
    unfold Transaction.detachFrom
    split_ifs with hid
    · exact ⟨hrow.account, hrow.category, hlink, by simp, hrow.batch⟩
    · refine ⟨hrow.account, hrow.category, hlink, fun r hr => ?_, hrow.batch⟩
      obtain ⟨x, hx, hxo⟩ := hrow.template r hr
      have hne : x.id ≠ id := fun h => hid (by rw [hr, ← Table.get?_id hx]; exact congrArg some h)
      refine ⟨x, ?_, hxo⟩
      rw [Table.get?_filter, hx, Option.filter_some_pos (by simpa using hne)]

/-- A write keeps every reference within its organisation. -/
theorem Writes.tenanted (h : Writes org db db') (hdb : db.Tenanted) : db'.Tenanted := by
  have hsame : ∀ a ∈ db.accounts.rows, (∃ a₀ ∈ db.accounts.rows, a.orgId = a₀.orgId ∧
      a.accountTypeId = a₀.accountTypeId) ∨
        db.accountTypes.Has AccountType.orgId a.orgId a.accountTypeId :=
    fun a ha => .inl ⟨a, ha, rfl, rfl⟩
  cases h with
  | openAccount a horg htype =>
    refine hdb.of_keepsRefs { KeepsRefs.refl db with accounts := Table.keepsOwners_insert _ a }
      (fun b hb => ?_) (fun _ => .inl) (fun _ => .inl) fun _ => .inl
    rcases List.mem_append.mp hb with hb | hb
    · exact hsame b hb
    · rw [List.mem_singleton.mp hb]
      exact .inr (horg ▸ htype)
  | credit k x h =>
    refine hdb.of_keepsRefs (keepsRefs_credit db k x) (fun b hb => ?_) (fun _ => .inl)
      (fun _ => .inl) fun _ => .inl
    obtain ⟨a, ha, rfl⟩ := List.mem_map.mp hb
    refine .inl ⟨a, ha, ?_⟩
    split_ifs <;> exact ⟨rfl, rfl⟩
  | addCategory c horg =>
    exact hdb.of_keepsRefs { KeepsRefs.refl db with categories := Table.keepsOwners_insert _ c }
      hsame (fun _ => .inl) (fun _ => .inl) fun _ => .inl
  | addTemplate r horg h =>
    refine hdb.of_keepsRefs { KeepsRefs.refl db with recurring := Table.keepsOwners_insert _ r }
      hsame (fun _ => .inl) (fun x hx => ?_) fun _ => .inl
    refine (List.mem_append.mp hx).imp_right fun hx => ?_
    rw [List.mem_singleton.mp hx]
    exact ⟨h.account, h.category⟩
  | putTemplate r horg hold h =>
    obtain ⟨r₀, hr₀, hr₀org⟩ := hold
    have hkeeps : db.recurring.KeepsOwners RecurringTransaction.orgId (db.recurring.put r) :=
      Table.keepsOwners_put hr₀ (horg.trans hr₀org.symm)
    refine hdb.of_keepsRefs { KeepsRefs.refl db with recurring := hkeeps }
      hsame (fun _ => .inl) (fun x hx => ?_) fun _ => .inl
    obtain ⟨y, hy, rfl⟩ := List.mem_map.mp hx
    split_ifs
    · exact .inr h
    · exact .inl hy
  | dropTemplate id hf h => exact hdb.dropTemplate id hf
  | addRow t horg h =>
    have hkeeps : db.KeepsRefs (db.addTransaction t) :=
      { KeepsRefs.refl db with transactions := Table.keepsOwners_insert _ t }
    refine hdb.of_keepsRefs hkeeps hsame (fun u hu => ?_) (fun _ => .inl) fun _ => .inl
    refine (List.mem_append.mp hu).imp_right fun hu => ?_
    rw [List.mem_singleton.mp hu]
    have ht := h.mono hkeeps
    exact ⟨ht.account, ht.category, ht.link, ht.template, ht.batch⟩
  | putRow t horg hold h =>
    obtain ⟨t₀, ht₀, ht₀org⟩ := hold
    have hrows : db.transactions.KeepsOwners Transaction.orgId (db.transactions.put t) :=
      Table.keepsOwners_put ht₀ (horg.trans ht₀org.symm)
    have hkeeps : db.KeepsRefs (db.putTransaction t) :=
      { KeepsRefs.refl db with transactions := hrows }
    refine hdb.of_keepsRefs hkeeps hsame (fun u hu => ?_) (fun _ => .inl) fun _ => .inl
    obtain ⟨y, hy, rfl⟩ := List.mem_map.mp hu
    split_ifs
    · exact .inr (h.mono hkeeps)
    · exact .inl hy
  | deleteRows ids h => exact hdb.deleteTransactions ids
  | openBatch b horg h =>
    refine hdb.of_keepsRefs
      { KeepsRefs.refl db with importBatches := Table.keepsOwners_insert _ b }
      hsame (fun _ => .inl) (fun _ => .inl) fun x hx => ?_
    refine (List.mem_append.mp hx).imp_right fun hx => ?_
    rw [List.mem_singleton.mp hx]
    exact horg ▸ h
  | assignBatch ids b hf h =>
    have hrows : db.transactions.KeepsOwners Transaction.orgId (db.transactions.mapRows _ hf) :=
      Table.keepsOwners_mapRows (assignBatch_orgId ids org b)
    have hkeeps : db.KeepsRefs { db with transactions := db.transactions.mapRows _ hf } :=
      { KeepsRefs.refl db with transactions := hrows }
    refine hdb.of_keepsRefs hkeeps hsame (fun u hu => ?_) (fun _ => .inl) fun _ => .inl
    obtain ⟨t, ht, rfl⟩ := List.mem_map.mp hu
    have ht' := (hdb.row t ht).mono hkeeps
    by_cases hids : t.id ∈ ids ∧ t.orgId = org
    · rw [Transaction.assignBatch, if_pos hids]
      refine .inr ⟨ht'.account, ht'.category, ht'.link, ht'.template, ?_⟩
      rintro c ⟨rfl⟩
      exact hids.2 ▸ h
    · rw [Transaction.assignBatch, if_neg hids]
      exact .inl ht
  | putBatch b horg hold h =>
    obtain ⟨b₀, hb₀, hb₀org⟩ := hold
    have hkeeps : db.importBatches.KeepsOwners ImportBatch.orgId (db.importBatches.put b) :=
      Table.keepsOwners_put hb₀ (horg.trans hb₀org.symm)
    refine hdb.of_keepsRefs { KeepsRefs.refl db with importBatches := hkeeps } hsame
      (fun _ => .inl) (fun _ => .inl) fun x hx => ?_
    obtain ⟨y, hy, rfl⟩ := List.mem_map.mp hx
    split_ifs
    · exact .inr (horg ▸ h)
    · exact .inl hy

/-! ### The rows of an organisation -/

/-- The rows of one organisation. -/
structure OrgView where
  accountTypes : List AccountType
  accounts : List Account
  categories : List Category
  transactions : List Transaction
  recurring : List RecurringTransaction
  importBatches : List ImportBatch
  deriving DecidableEq

/-- What an organisation has in the ledger. -/
def view (o : ℕ) (db : Db) : OrgView where
  accountTypes := db.accountTypes.slice AccountType.orgId o
  accounts := db.accounts.slice Account.orgId o
  categories := db.categories.slice Category.orgId o
  transactions := db.transactions.slice Transaction.orgId o
  recurring := db.recurring.slice RecurringTransaction.orgId o
  importBatches := db.importBatches.slice ImportBatch.orgId o

/-- A write of an organisation leaves the rows of the others. -/
theorem Writes.view_eq (h : Writes org db db') (hdb : db.Tenanted) (ho : org ≠ o) :
    db'.view o = db.view o := by
  have hother : ∀ {α : Type} [Row α] {owner : α → ℕ} {t : Table α} {i : ℕ} {a : α},
      t.Has owner org i → t.get? i = some a → owner a ≠ o := by
    rintro α _ owner t i a ⟨b, hb, hbo⟩ ha
    rw [ha, Option.some_inj] at hb
    exact hb ▸ hbo ▸ ho
  cases h with
  | openAccount a horg =>
    have h : (db.accounts.insert a).slice Account.orgId o = db.accounts.slice Account.orgId o :=
      Table.slice_insert (horg ▸ ho : a.orgId ≠ o)
    simp only [view, h]
  | credit k x h =>
    have h : (db.credit k x).accounts.slice Account.orgId o = db.accounts.slice Account.orgId o :=
      Table.slice_modify (by exact fun _ => rfl) (by exact fun _ => rfl) fun a ha => hother h ha
    rw [view, h]
    rfl
  | addCategory c horg =>
    have h : (db.categories.insert c).slice Category.orgId o =
        db.categories.slice Category.orgId o :=
      Table.slice_insert (horg ▸ ho : c.orgId ≠ o)
    simp only [view, h]
  | addTemplate r horg =>
    have h : (db.recurring.insert r).slice RecurringTransaction.orgId o =
        db.recurring.slice RecurringTransaction.orgId o :=
      Table.slice_insert (horg ▸ ho : r.orgId ≠ o)
    simp only [view, h]
  | putTemplate r horg hold =>
    obtain ⟨r₀, hr₀, hr₀org⟩ := hold
    have h : (db.recurring.put r).slice RecurringTransaction.orgId o =
        db.recurring.slice RecurringTransaction.orgId o :=
      Table.slice_put hr₀ (hr₀org ▸ ho) (horg ▸ ho)
    simp only [view, h]
  | dropTemplate id hf h =>
    have hrecurring : (db.recurring.filter (·.id ≠ id)).slice RecurringTransaction.orgId o =
        db.recurring.slice RecurringTransaction.orgId o := by
      refine Table.slice_filter fun r hr hro => decide_eq_true fun hid => ?_
      exact hother h (hid ▸ Table.get?_of_mem hr) hro
    -- A row with the template belongs to the organisation of the template.
    have hrows : (db.transactions.mapRows (Transaction.detachFrom id) hf).slice
        Transaction.orgId o = db.transactions.slice Transaction.orgId o := by
      refine Table.slice_mapRows hf (detachFrom_orgId id) fun t ht hto => if_neg fun hid => ?_
      obtain ⟨r, hr, hro⟩ := (hdb.row t ht).template id hid
      exact hother h hr (hro.trans hto)
    simp only [view, hrecurring, hrows]
  | addRow t horg =>
    have h : (db.addTransaction t).transactions.slice Transaction.orgId o =
        db.transactions.slice Transaction.orgId o :=
      Table.slice_insert (horg ▸ ho : t.orgId ≠ o)
    rw [view, h]
    rfl
  | putRow t horg hold =>
    obtain ⟨t₀, ht₀, ht₀org⟩ := hold
    have h : (db.putTransaction t).transactions.slice Transaction.orgId o =
        db.transactions.slice Transaction.orgId o :=
      Table.slice_put ht₀ (ht₀org ▸ ho) (horg ▸ ho)
    rw [view, h]
    rfl
  | deleteRows ids h =>
    have hkept : (db.transactions.filter (·.id ∉ ids)).slice Transaction.orgId o =
        db.transactions.slice Transaction.orgId o :=
      Table.slice_filter fun t ht hto => decide_eq_true fun hid =>
        hother (h _ hid) (Table.get?_of_mem ht) hto
    -- A row linked to a deleted one belongs to the organisation of the deleted one.
    have hrows : (db.deleteTransactions ids).transactions.slice Transaction.orgId o =
        db.transactions.slice Transaction.orgId o := by
      rw [← hkept]
      refine Table.slice_mapRows (fun t => congrArg Transaction.id (unlinkFrom_eq ids t))
        (unlinkFrom_orgId ids) fun t ht hto => if_neg ?_
      rw [Option.any_eq_true]
      rintro ⟨l, hl, hids⟩
      obtain ⟨u, hu, huo⟩ := (hdb.row t (List.mem_of_mem_filter ht)).link l hl
      exact hother (h l (of_decide_eq_true hids)) hu (huo.trans hto)
    rw [view, hrows]
    rfl
  | openBatch b horg =>
    have h : (db.importBatches.insert b).slice ImportBatch.orgId o =
        db.importBatches.slice ImportBatch.orgId o :=
      Table.slice_insert (horg ▸ ho : b.orgId ≠ o)
    simp only [view, h]
  | assignBatch ids b hf =>
    have hrows : (db.transactions.mapRows (Transaction.assignBatch ids org b) hf).slice
        Transaction.orgId o = db.transactions.slice Transaction.orgId o :=
      Table.slice_mapRows hf (assignBatch_orgId ids org b) fun t _ hto =>
        if_neg fun hids => ho (hids.2.symm.trans hto)
    simp only [view, hrows]
  | putBatch b horg hold =>
    obtain ⟨b₀, hb₀, hb₀org⟩ := hold
    have h : (db.importBatches.put b).slice ImportBatch.orgId o =
        db.importBatches.slice ImportBatch.orgId o :=
      Table.slice_put hb₀ (hb₀org ▸ ho) (horg ▸ ho)
    simp only [view, h]

/-- No write drops an account. -/
theorem Writes.accounts_keep (h : Writes org db db') :
    db.accounts.KeepsOwners Account.orgId db'.accounts := by
  cases h with
  | openAccount a => exact Table.keepsOwners_insert _ a
  | credit k x => exact (keepsRefs_credit db k x).accounts
  | _ => exact .refl _ _

theorem WritesMany.accounts_keep (h : WritesMany org db db') :
    db.accounts.KeepsOwners Account.orgId db'.accounts := by
  induction h with
  | refl => exact .refl _ _
  | tail _ hwrite ih => exact fun o i hi => hwrite.accounts_keep o i (ih o i hi)

/-- Any number of writes keep references within and leave the rows of the other organisations. -/
theorem WritesMany.tenanted (h : WritesMany org db db') (hdb : db.Tenanted) : db'.Tenanted := by
  induction h with
  | refl => exact hdb
  | tail _ hwrite ih => exact hwrite.tenanted ih

theorem WritesMany.view_eq (h : WritesMany org db db') (hdb : db.Tenanted) (ho : org ≠ o) :
    db'.view o = db.view o := by
  induction h with
  | refl => rfl
  | tail hmany hwrite ih => rw [hwrite.view_eq (WritesMany.tenanted hmany hdb) ho, ih]

end Db

end Pfv
