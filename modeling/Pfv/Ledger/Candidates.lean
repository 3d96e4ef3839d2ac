import Pfv.Ledger.Reimport
import Pfv.Ledger.RowRules

/-!
# Candidates for a transfer

The preview of an import offers rows of other accounts as the other leg of a bank row, and the
confirm step links the bank row with the chosen one. Which rows fit is written three times: in the
query of the candidates, in the guards of the confirm step and in the invariants of a pair. On every
reachable ledger the three agree but for the currency, which the query leaves to the database and
the guards compare as it is written. The window of the query is computed with dates of the calendar,
and there is none around a date at either end of it.

## Main definitions

* `findMatchCandidatesInWindow`: the query of the candidates with the window it computes first.
* `Db.Eligible`: a row that could be the other leg of a bank row.
* `Db.CurrenciesAgree`: the database finds no currencies equal that differ, where the list has room.
* `OffersConfirmable`: the candidates are the first of the eligible rows, and confirming any of them
  succeeds.

## Main results

* `linkPair_of_linkable`: two rows that may be linked are linked.
* `offersConfirmable_iff`: the candidates of a bank row are found and can be confirmed unless the
  window around its date leaves the calendar or one of them has a currency that only the database
  finds equal.
-/

namespace Pfv

/-! ### The query -/

/-- `find_match_candidates`: the bounds of the window are computed before the query. -/
def findMatchCandidatesInWindow (col : Collation) (db : Db) (org : ℕ)
    (sourceType : TransactionType) (amount : ℚ) (accountIdExcluded : ℕ) (date : Date)
    (currency : String) : Except PreviewError (List Transaction) := do
  raiseIf (¬date.HasWindow) .dateOverflow
  pure (findMatchCandidates col db org sourceType amount accountIdExcluded date currency)

theorem findMatchCandidatesInWindow_eq_ok {col : Collation} {db : Db} {org : ℕ}
    {sourceType : TransactionType} {amount : ℚ} {accountIdExcluded : ℕ} {date : Date}
    {currency : String} {candidates : List Transaction} :
    findMatchCandidatesInWindow col db org sourceType amount accountIdExcluded date currency =
        .ok candidates ↔
      date.HasWindow ∧
        findMatchCandidates col db org sourceType amount accountIdExcluded date currency =
          candidates := by
  rw [findMatchCandidatesInWindow, raiseIf_bind_eq_ok, pure_eq_ok, not_not]

/-- A row of another account that could be the other leg of a bank row of an account, the currency
aside. -/
structure Db.OtherLeg (db : Db) (org : ℕ) (account : Account) (row : ImportConfirmRow)
    (t : Transaction) : Prop where
  mem : t ∈ db.transactions.rows
  orgId : t.orgId = org
  account_ne : t.accountId ≠ account.id
  type : t.type = row.type.opposite.toTransactionType
  amount : (t.amount : ℚ) = row.amount * 100
  settled : t.status = .settled
  unlinked : t.linkedTransactionId = none
  nonRecurring : t.recurringId = none
  manual : t.isManualAdjustment = false
  date : t.date.daysApart row.date ≤ 3

instance (db : Db) (org : ℕ) (account : Account) (row : ImportConfirmRow) (t : Transaction) :
    Decidable (db.OtherLeg org account row t) :=
  decidable_of_iff
    (t ∈ db.transactions.rows ∧ t.orgId = org ∧ t.accountId ≠ account.id ∧
      t.type = row.type.opposite.toTransactionType ∧ (t.amount : ℚ) = row.amount * 100 ∧
      t.status = .settled ∧ t.linkedTransactionId = none ∧ t.recurringId = none ∧
      t.isManualAdjustment = false ∧ t.date.daysApart row.date ≤ 3)
    ⟨fun ⟨hmem, horg, hacc, hty, hamt, hst, hlink, hrec, hman, hdate⟩ =>
      ⟨hmem, horg, hacc, hty, hamt, hst, hlink, hrec, hman, hdate⟩,
    fun ⟨hmem, horg, hacc, hty, hamt, hst, hlink, hrec, hman, hdate⟩ =>
      ⟨hmem, horg, hacc, hty, hamt, hst, hlink, hrec, hman, hdate⟩⟩

/-- A row of another account with the same currency that could be the other leg of a bank row. -/
structure Db.Eligible (db : Db) (org : ℕ) (account : Account) (row : ImportConfirmRow)
    (t : Transaction) : Prop extends Db.OtherLeg db org account row t where
  currency : db.currencyOf t.accountId = some account.currency

/-- A row the database takes for eligible. -/
def Db.Queried (db : Db) (col : Collation) (org : ℕ) (account : Account) (row : ImportConfirmRow)
    (t : Transaction) : Prop :=
  db.OtherLeg org account row t ∧ ∃ c ∈ db.currencyOf t.accountId, col.Equal c account.currency

instance (db : Db) (col : Collation) (org : ℕ) (account : Account) (row : ImportConfirmRow) :
    DecidablePred (db.Queried col org account row) :=
  fun _ => inferInstanceAs (Decidable (_ ∧ _))

/-- The rows that come before a row in the query. -/
def Db.queriedBefore (db : Db) (col : Collation) (org : ℕ) (account : Account)
    (row : ImportConfirmRow) (t : Transaction) : List Transaction :=
  db.transactions.rows.filter fun t' =>
    db.Queried col org account row t' ∧ closerTo row.date t' t ∧ t' ≠ t

/-- As far as the list of twenty-five goes, the database finds no currencies equal that differ. -/
def Db.CurrenciesAgree (db : Db) (col : Collation) (org : ℕ) (account : Account)
    (row : ImportConfirmRow) : Prop :=
  ∀ t ∈ db.transactions.rows, db.Queried col org account row t →
    (db.queriedBefore col org account row t).length < 25 →
    db.currencyOf t.accountId = some account.currency

instance (db : Db) (col : Collation) (org : ℕ) (account : Account) (row : ImportConfirmRow) :
    Decidable (db.CurrenciesAgree col org account row) :=
  inferInstanceAs (Decidable (∀ t ∈ db.transactions.rows, _ → _ → _ = _))

theorem Db.Eligible.queried {db : Db} {col : Collation} {org : ℕ} {account : Account}
    {row : ImportConfirmRow} {t : Transaction} (h : db.Eligible org account row t) :
    db.Queried col org account row t :=
  ⟨h.toOtherLeg, account.currency, h.currency, rfl⟩

/-! ### The order of the candidates -/

section Order

variable {date : Date}

theorem closerTo_total (a b : Transaction) : closerTo date a b ∨ closerTo date b a := by
  unfold closerTo
  omega

theorem closerTo_trans {a b c : Transaction} (hab : closerTo date a b) (hbc : closerTo date b c) :
    closerTo date a c := by
  unfold closerTo at *
  omega

instance (date : Date) : Std.Total (closerTo date) := ⟨closerTo_total⟩

theorem closerTo_antisymm {a b : Transaction} (hab : closerTo date a b) (hba : closerTo date b a) :
    a.id = b.id := by
  unfold closerTo at *
  omega

instance (date : Date) : IsTrans Transaction (closerTo date) := ⟨fun _ _ _ => closerTo_trans⟩

/-- A member of a sorted list is among the first `k`, or there are `k` that all come before it. -/
theorem mem_take_or_after {α : Type*} {r : α → α → Prop} {l : List α} (hl : l.Pairwise r) (k : ℕ)
    {x : α} (hx : x ∈ l) : x ∈ l.take k ∨ (l.take k).length = k ∧ ∀ y ∈ l.take k, r y x := by
  rw [← List.take_append_drop k l] at hl hx
  refine (List.mem_append.mp hx).imp_right fun hdrop => ⟨?_, fun y hy => ?_⟩
  · have hk := List.length_pos_of_mem hdrop
    rw [List.length_drop] at hk
    exact List.length_take_of_le (by omega)
  · exact (List.pairwise_append.mp hl).2.2 y hy x hdrop

/-- The first `k` members of a sorted list are those with fewer than `k` before them. -/
theorem mem_take_iff_length_before {α : Type*} [DecidableEq α] {r : α → α → Prop} [DecidableRel r]
    {l : List α} (hl : l.Pairwise r) (hnodup : l.Nodup)
    (hanti : ∀ a ∈ l, ∀ b ∈ l, r a b → r b a → a = b) (k : ℕ) {x : α} (hx : x ∈ l) :
    x ∈ l.take k ↔ (l.filter fun y => r y x ∧ y ≠ x).length < k := by
  obtain ⟨front, back, rfl⟩ := List.append_of_mem hx
  obtain ⟨-, hback, hfront⟩ := List.pairwise_append.mp hl
  rw [List.nodup_append, List.nodup_cons] at hnodup
  obtain ⟨-, ⟨hxback, -⟩, hne⟩ := hnodup
  have hbefore : (front ++ x :: back).filter (fun y => r y x ∧ y ≠ x) = front := by
    have hkeep : front.filter (fun y => r y x ∧ y ≠ x) = front :=
      List.filter_eq_self.mpr fun y hy => decide_eq_true
        ⟨hfront y hy x List.mem_cons_self, fun h => hne y hy x List.mem_cons_self h⟩
    have hdrop : back.filter (fun y => r y x ∧ y ≠ x) = [] := by
      refine List.filter_eq_nil_iff.mpr fun y hy hyx => ?_
      obtain ⟨hr, hneq⟩ := of_decide_eq_true hyx
      exact hneq (hanti y (by simp [hy]) x hx hr ((List.pairwise_cons.mp hback).1 y hy))
    rw [List.filter_append, hkeep, List.filter_cons_of_neg (by simp), hdrop, List.append_nil]
  have hxfront : x ∉ front := fun h => hne x h x List.mem_cons_self rfl
  rw [hbefore, List.mem_take_iff_idxOf_lt hx, List.idxOf_append_of_notMem hxfront,
    List.idxOf_cons_self, Nat.add_zero]

end Order

section Query

variable {db : Db} {col : Collation} {org : ℕ} {account : Account} {row : ImportConfirmRow}

/-- The rows of the query, the closest date first. -/
def Db.queriedRows (db : Db) (col : Collation) (org : ℕ) (account : Account)
    (row : ImportConfirmRow) : List Transaction :=
  (db.transactions.rows.filter fun t =>
    t.orgId = org ∧ t.accountId ≠ account.id ∧
      t.type = (if row.type.toTransactionType = .expense then .income else .expense) ∧
      (t.amount : ℚ) = row.amount * 100 ∧ t.status = .settled ∧ t.linkedTransactionId = none ∧
      t.recurringId = none ∧ t.isManualAdjustment = false ∧ t.date.daysApart row.date ≤ 3 ∧
      ∃ c ∈ db.currencyOf t.accountId, col.Equal c account.currency).insertionSort
    (closerTo row.date)

theorem findMatchCandidates_eq_take :
    findMatchCandidates col db org row.type.toTransactionType row.amount account.id row.date
        account.currency = (db.queriedRows col org account row).take 25 :=
  rfl

theorem queriedRows_eq :
    db.queriedRows col org account row =
      (db.transactions.rows.filter (db.Queried col org account row)).insertionSort
        (closerTo row.date) := by
  have htype : (if row.type.toTransactionType = .expense then .income else .expense) =
      row.type.opposite.toTransactionType := by
    cases row.type <;> rfl
  rw [Db.queriedRows, htype]
  congr 1
  refine List.filter_congr fun t hmem => ?_
  rw [decide_eq_decide]
  constructor
  · rintro ⟨horg, hacc, hty, hamt, hst, hlink, hrec, hman, hdate, hcur⟩
    exact ⟨⟨hmem, horg, hacc, hty, hamt, hst, hlink, hrec, hman, hdate⟩, hcur⟩
  · rintro ⟨⟨-, horg, hacc, hty, hamt, hst, hlink, hrec, hman, hdate⟩, hcur⟩
    exact ⟨horg, hacc, hty, hamt, hst, hlink, hrec, hman, hdate, hcur⟩

theorem mem_queriedRows {t : Transaction} :
    t ∈ db.queriedRows col org account row ↔ db.Queried col org account row t := by
  rw [queriedRows_eq, List.mem_insertionSort, List.mem_filter, decide_eq_true_eq]
  exact and_iff_right_of_imp fun h => h.1.mem

theorem queriedRows_sorted :
    (db.queriedRows col org account row).Pairwise (closerTo row.date) :=
  List.pairwise_insertionSort _ _

theorem queriedRows_nodup : (db.queriedRows col org account row).Nodup := by
  refine (List.perm_insertionSort _ _).nodup_iff.mpr (List.Nodup.filter _ ?_)
  exact List.Nodup.of_map _ db.transactions.nodup

/-- The candidates are the rows of the query with fewer than twenty-five before them. -/
theorem mem_take_queriedRows {t : Transaction} (ht : db.Queried col org account row t) :
    t ∈ (db.queriedRows col org account row).take 25 ↔
      (db.queriedBefore col org account row t).length < 25 := by
  have hbefore : ((db.queriedRows col org account row).filter fun t' =>
      closerTo row.date t' t ∧ t' ≠ t).length =
        (db.queriedBefore col org account row t).length := by
    rw [queriedRows_eq, ((List.perm_insertionSort _ _).filter _).length_eq, List.filter_filter,
      Db.queriedBefore]
    congr 1
    exact List.filter_congr fun t' _ => by rw [← Bool.decide_and, decide_eq_decide]; tauto
  rw [mem_take_iff_length_before queriedRows_sorted queriedRows_nodup ?_ 25
    (mem_queriedRows.mpr ht), hbefore]
  intro a ha b hb hab hba
  exact List.inj_on_of_nodup_map db.transactions.nodup (mem_queriedRows.mp ha).1.mem
    (mem_queriedRows.mp hb).1.mem (closerTo_antisymm hab hba)

end Query

/-! ### Confirming a candidate -/

/-- An import goes through without an error of a row. -/
def Imports (db : Db) (org : ℕ) (body : ImportConfirmRequest) (userId : Option ℕ) : Prop :=
  ∃ db' response, executeImport db org body userId = .ok (db', response) ∧
    response.errorCount = 0

theorem imports_iff {db : Db} {org : ℕ} {body : ImportConfirmRequest} {userId : Option ℕ} :
    Imports db org body userId ↔
      (executeImport db org body userId).map (·.2.errorCount) = .ok 0 := by
  rw [Imports]
  cases executeImport db org body userId with
  | error e => simp [Except.map]
  | ok p => simp [Except.map, Prod.ext_iff]

/-- The request with a single row. -/
def ImportConfirmRequest.only (body : ImportConfirmRequest) (row : ImportConfirmRow) :
    ImportConfirmRequest :=
  { body with rows := [row] }

/-- The row to be stored on its own. -/
def ImportConfirmRow.asCreate (row : ImportConfirmRow) : ImportConfirmRow :=
  { row with action := .create }

/-- The row to be stored and linked with an existing one under the default transfer category. -/
def ImportConfirmRow.asPairWith (row : ImportConfirmRow) (id : ℕ) : ImportConfirmRow :=
  { row with
    action := .pairWithExisting, pairWithTransactionId := some id, transferCategoryId := none }

/-- What is offered for a bank row: the first twenty-five of the eligible rows by the distance of
the date and the id, each of which can be confirmed whenever the bank row can be stored. -/
structure OffersConfirmable (db : Db) (org : ℕ) (account : Account) (row : ImportConfirmRow)
    (candidates : List Transaction) : Prop where
  sorted : candidates.Pairwise (closerTo row.date)
  nodup : candidates.Nodup
  eligible : ∀ c ∈ candidates, db.Eligible org account row c
  first : ∀ t, db.Eligible org account row t → t ∈ candidates ∨
    candidates.length = 25 ∧ ∀ c ∈ candidates, closerTo row.date c t
  length_le : candidates.length ≤ 25
  confirmable : ∀ c ∈ candidates, ∀ body : ImportConfirmRequest, body.accountId = account.id →
    ∀ userId, Imports db org (body.only row.asCreate) userId →
      Imports db org (body.only (row.asPairWith c.id)) userId

section Confirm

variable {db : Db} {org : ℕ} {account : Account} {row : ImportConfirmRow}
  {body : ImportConfirmRequest} {userId : Option ℕ}

/-- The default transfer category is found or created. -/
theorem exists_transferCategory (db : Db) (org : ℕ) (recategorize : Bool) :
    ∃ db' cat, transferCategory db org recategorize none = .ok (db', cat) := by
  cases recategorize
  · exact ⟨_, _, rfl⟩
  · exact ⟨_, _, rfl⟩

/-- Two rows that may be linked are linked. -/
theorem linkPair_of_linkable {e i : Transaction} (h : db.Linkable e i) (he : e.Flushable)
    (hi : i.Flushable) (recategorize : Bool) :
    ∃ db', linkPair db e i recategorize none = .ok db' := by
  have hcheck : checkPair db e i = .ok () := by
    unfold checkPair
    simp only [↓unit_bind_eq_ok, raiseIf_eq_ok]
    simp [h.expense_manual, h.income_manual, h.org_eq, h.expense_type, h.income_type, h.account_ne,
      h.amount_eq, h.expense_unlinked, h.income_unlinked, h.currency_eq]
  obtain ⟨db₁, cat, hcat⟩ := exists_transferCategory db e.orgId recategorize
  refine ⟨(db₁.putTransaction (e.linkTo i.id cat)).putTransaction (i.linkTo e.id cat), ?_⟩
  rw [linkPair, bind_of_ok hcheck, bind_of_ok hcat]
  dsimp only
  have hexpense : (e.linkTo i.id cat).Flushable := he
  have hincome : (i.linkTo e.id cat).Flushable := hi
  rw [bind_of_ok (saveTransaction_eq_ok.mpr ⟨hexpense, rfl⟩)]
  exact saveTransaction_eq_ok.mpr ⟨hincome, rfl⟩

theorem exists_importBatchOf (org : ℕ) (body : ImportConfirmRequest) (userId : Option ℕ)
    (s : ImportState) : ∃ p, importBatchOf org body userId s = .ok p := by
  unfold importBatchOf
  cases userId with
  | none => exact ⟨_, rfl⟩
  | some user =>
    dsimp only
    split_ifs with hids
    · exact ⟨_, rfl⟩
    · unfold createImportBatch
      rw [raiseIf_of_not hids]
      exact ⟨_, rfl⟩

/-- The import of a single row goes through when the row is skipped or stored. -/
theorem imports_only_iff (haccount : db.account? account.id org = some account)
    (hbody : body.accountId = account.id) :
    Imports db org (body.only row) userId ↔ (row.skip = false →
      ∃ p, importRow db org (body.only row) account.currency row true = .ok p) := by
  have hdest : db.account? (body.only row).accountId org = some account := hbody.symm ▸ haccount
  obtain ⟨⟨db', importId⟩, hbatch⟩ := exists_importBatchOf org (body.only row) userId
    (importStep org (body.only row) account.currency { db := db } row)
  have hrun : Imports db org (body.only row) userId ↔
      (importStep org (body.only row) account.currency { db := db } row).errors = [] := by
    unfold Imports executeImport
    rw [bind_of_ok (orRaise_eq_ok.mpr hdest)]
    show (∃ db' response, (importBatchOf org (body.only row) userId
      (importStep org (body.only row) account.currency { db := db } row) >>= _) = _ ∧ _) ↔ _
    rw [bind_of_ok hbatch]
    constructor
    · rintro ⟨_, response, hresponse, hcount⟩
      rw [pure_eq_ok, Prod.mk.injEq] at hresponse
      rw [← hresponse.2] at hcount
      exact List.length_eq_zero_iff.mp hcount
    · intro herrors
      exact ⟨_, _, rfl, List.length_eq_zero_iff.mpr herrors⟩
  rw [hrun]
  unfold importStep
  cases hskip : row.skip with
  | true => simp
  | false =>
    rw [if_neg (by simp)]
    cases hrow : importRow db org (body.only row) account.currency row true with
    | error e => simp
    | ok p => cases haction : row.action <;> simp [ImportState.count]

/-- The leg of a bank row as it is stored. -/
structure ImportConfirmRow.IsLeg (row : ImportConfirmRow) (org accountId : ℕ) (t : Transaction) :
    Prop where
  orgId : t.orgId = org
  accountId : t.accountId = accountId
  type : t.type = row.type.toTransactionType
  amount : (t.amount : ℚ) = row.amount * 100
  unlinked : t.linkedTransactionId = none
  manual : t.isManualAdjustment = false
  flushable : t.Flushable

/-- Storing the leg of a bank row leaves the other rows and the currencies alone. -/
theorem importLeg_stores {db' : Db} {newTx : Transaction}
    (h : importLeg db org body row = .ok (db', newTx)) :
    row.IsLeg org body.accountId newTx ∧
      (∀ c ∈ db.transactions.rows, db'.transactions.get? c.id = some c) ∧
      ∀ k, db'.currencyOf k = db.currencyOf k := by
  unfold importLeg at h
  simp only [bind_eq_ok] at h
  obtain ⟨txBody, hbody, hcreate⟩ := h
  have hflush := createTransactionNoCommit_flushable hcreate
  obtain ⟨-, rfl, rfl⟩ := createTransactionNoCommit_ok hcreate
  simp only [ImportConfirmRow.toCreate, bind_eq_ok, orRaise_eq_ok, pure_eq_ok] at hbody
  obtain ⟨description, -, amount, hamount, rfl⟩ := hbody
  refine ⟨⟨rfl, rfl, rfl, Amount.ofDecimal_cents hamount, rfl, rfl, hflush⟩, fun c hc => ?_,
    fun k => Db.currencyOf_post _ _ k⟩
  exact Table.get?_insert_of_some _ (Table.get?_of_mem hc)

/-- A stored bank row and an eligible row may be linked, the expense first. -/
theorem linkable_of_eligible {newTx c : Transaction} {db' : Db}
    (haccount : db.account? account.id org = some account) (hc : db.Eligible org account row c)
    (hnew : db'.transactions.get? newTx.id = some newTx)
    (hleg : row.IsLeg org account.id newTx) (hmem : db'.transactions.get? c.id = some c)
    (hcurrency : ∀ k, db'.currencyOf k = db.currencyOf k) :
    if newTx.type = .expense then db'.Linkable newTx c else db'.Linkable c newTx := by
  have hcur : db'.currencyOf newTx.accountId = db'.currencyOf c.accountId := by
    rw [hcurrency, hcurrency, hc.currency, hleg.accountId, Db.currencyOf,
      (Db.account?_eq_some.mp haccount).1, Option.map_some]
  have hamount : newTx.amount = c.amount := by
    have : (newTx.amount : ℚ) = c.amount := hleg.amount.trans hc.amount.symm
    exact_mod_cast this
  have hacc : newTx.accountId ≠ c.accountId := fun h => hc.account_ne (h ▸ hleg.accountId)
  have horg : newTx.orgId = c.orgId := hleg.orgId.trans hc.orgId.symm
  have htype := hleg.type
  have hctype := hc.type
  cases hrow : row.type <;> rw [hrow] at htype hctype
  · rw [if_neg (by simp [htype, EntryType.toTransactionType])]
    exact ⟨hmem, hnew, hc.manual, hleg.manual, horg.symm, hctype, htype, hacc.symm,
      by rw [hamount], hc.unlinked, hleg.unlinked, hcur.symm⟩
  · rw [if_pos (by simp [htype, EntryType.toTransactionType])]
    exact ⟨hnew, hmem, hleg.manual, hc.manual, horg, htype, hctype, hacc,
      by rw [hamount], hleg.unlinked, hc.unlinked, hcur⟩

/-- Confirming an eligible row succeeds whenever the bank row can be stored. -/
theorem imports_asPairWith (hflushed : db.Rows Transaction.Flushable)
    (haccount : db.account? account.id org = some account)
    {c : Transaction} (hc : db.Eligible org account row c) (hbody : body.accountId = account.id)
    (hcreate : Imports db org (body.only row.asCreate) userId) :
    Imports db org (body.only (row.asPairWith c.id)) userId := by
  rw [imports_only_iff haccount hbody] at hcreate ⊢
  intro hskip
  obtain ⟨⟨db', id, loaded⟩, hrow⟩ := hcreate hskip
  have hrow' : importCreate db org (body.only row.asCreate) row.asCreate true =
      .ok (db', id, loaded) := hrow
  simp only [importCreate, bind_eq_ok, flushingLeg_eq_ok, Prod.exists] at hrow'
  obtain ⟨db₁, newTx, hleg, -⟩ := hrow'
  have hleg' : importLeg db org body row = .ok (db₁, newTx) := hleg
  obtain ⟨hisLeg, hkeeps, hcurrency⟩ := importLeg_stores hleg'
  have hmem := hkeeps c hc.mem
  have hlink := linkable_of_eligible haccount hc (importLeg_getNew hleg') (hbody ▸ hisLeg) hmem
    hcurrency
  have hcFlush : c.Flushable := hflushed _ _ (Table.get?_of_mem hc.mem)
  have hlinked : ∃ db₂, importLink db₁ (row.asPairWith c.id) newTx c = .ok db₂ := by
    unfold importLink
    split_ifs at hlink ⊢
    · exact linkPair_of_linkable hlink hisLeg.flushable hcFlush row.recategorize
    · exact linkPair_of_linkable hlink hcFlush hisLeg.flushable row.recategorize
  obtain ⟨db₂, hdb₂⟩ := hlinked
  have hpair : importPair db₁ org account.currency (row.asPairWith c.id) c.id newTx = .ok db₂ := by
    unfold importPair
    rw [bind_of_ok (orRaise_eq_ok.mpr (Db.transaction?_eq_some.mpr ⟨hmem, hc.orgId⟩))]
    simp only [↓unit_bind_eq_ok, raiseIf_eq_ok]
    simp [hc.unlinked, hc.nonRecurring, hc.settled, hcurrency, hc.currency, hdb₂]
  refine ⟨(db₂, some newTx.id, true), ?_⟩
  show importPairWithExisting db org (body.only (row.asPairWith c.id)) account.currency
    (row.asPairWith c.id) true = _
  have hleg'' : importLeg db org (body.only (row.asPairWith c.id)) (row.asPairWith c.id) =
      .ok (db₁, newTx) := hleg
  simp only [importPairWithExisting, bind_eq_ok, orRaise_eq_ok, flushingLeg_eq_ok,
    leavingLoaded_eq_ok, pure_eq_ok, Prod.exists]
  exact ⟨c.id, rfl, db₁, newTx, hleg'', db₂, hpair, rfl⟩

end Confirm

/-- The candidates of a bank row: in every reachable ledger, they are found, are the first of the
eligible rows in order, and can be confirmed whenever the bank row can be stored, unless the window
around the date of the row leaves the calendar or, among the first twenty-five rows of the query,
there is one whose currency only the database finds equal. -/
theorem offersConfirmable_iff (col : Collation) {db : Db} (hreach : db.ReachableBy fun _ => True)
    {org : ℕ} {account : Account} (haccount : db.account? account.id org = some account)
    (row : ImportConfirmRow) :
    (∃ candidates, findMatchCandidatesInWindow col db org row.type.toTransactionType row.amount
        account.id row.date account.currency = .ok candidates ∧
      OffersConfirmable db org account row candidates) ↔
    row.date.HasWindow ∧ db.CurrenciesAgree col org account row := by
  simp only [findMatchCandidatesInWindow_eq_ok, findMatchCandidates_eq_take]
  constructor
  · rintro ⟨_, ⟨hwindow, rfl⟩, hoffers⟩
    exact ⟨hwindow, fun t _ ht hbefore =>
      (hoffers.eligible t ((mem_take_queriedRows ht).mpr hbefore)).currency⟩
  · rintro ⟨hwindow, hagree⟩
    refine ⟨_, ⟨hwindow, rfl⟩, ?_⟩
    have htake := List.take_sublist 25 (db.queriedRows col org account row)
    have heligible : ∀ c ∈ (db.queriedRows col org account row).take 25,
        db.Eligible org account row c := by
      intro c hc
      have hqueried := mem_queriedRows.mp (htake.mem hc)
      exact ⟨hqueried.1, hagree c hqueried.1.mem hqueried ((mem_take_queriedRows hqueried).mp hc)⟩
    exact
      { sorted := queriedRows_sorted.sublist htake
        nodup := queriedRows_nodup.sublist htake
        eligible := heligible
        first := fun t ht =>
          mem_take_or_after queriedRows_sorted 25 (mem_queriedRows.mpr ht.queried)
        length_le := List.length_take_le _ _
        confirmable := fun c hc body hbody userId hcreate =>
          imports_asPairWith hreach.flushable haccount (heligible c hc) hbody hcreate }

/-! ### A sample bank row -/

/-- An account in a currency. -/
def sampleAccountIn (name currency : String) : Request :=
  .createAccount 1
    { name := name, accountTypeId := 1, currency := currency, closeDay_range := noCloseDay_range
      lower := zeroOpening_lower, upper := zeroOpening_upper } sampleDate

/-- Two accounts, the second in a given currency, and an income row of 10.00 on the second. -/
def sampleCandidateRun (currency : String) : List Request :=
  [sampleAccount "Checking", sampleAccountIn "Savings" currency, sampleCreate 2 .income .settled]

/-- The ledger after that. -/
def sampleCandidateDb (currency : String) : Db :=
  serveAll Request.step sampleDb (sampleCandidateRun currency)

def sampleChecking : Account :=
  { id := 1, orgId := 1, accountTypeId := 1, name := "Checking", openingBalanceDate := sampleDate }

/-- A bank row of 10.00 out of the first account. -/
def sampleBankRow (date : Date) : ImportConfirmRow :=
  { rowNumber := 1, date := date, description := "To savings", amount := 10, type := .expense
    amount_pos := sampleRow_pos }

/-- The first day of the calendar. -/
def firstDate : Date := .of 1 1 1

theorem sampleCandidateDb_reachable (currency : String) :
    (sampleCandidateDb currency).ReachableBy fun _ => True :=
  ⟨sampleDb, sampleCandidateRun currency, sampleDb_seeded, fun _ _ => trivial, rfl⟩

theorem sampleCandidateDb_account :
    (sampleCandidateDb "EUR").account? sampleChecking.id 1 = some sampleChecking ∧
      (sampleCandidateDb "eur").account? sampleChecking.id 1 = some sampleChecking := by
  decide +kernel

/-- The income row is offered for a bank row of its day, and can be confirmed. -/
theorem offersConfirmable_sampleBankRow :
    ∃ candidates, findMatchCandidatesInWindow caseInsensitive (sampleCandidateDb "EUR") 1 .expense
        10 1 sampleDate "EUR" = .ok candidates ∧ candidates.map (·.id) = [1] ∧
      OffersConfirmable (sampleCandidateDb "EUR") 1 sampleChecking (sampleBankRow sampleDate)
        candidates := by
  have hids : (findMatchCandidates caseInsensitive (sampleCandidateDb "EUR") 1 .expense 10 1
      sampleDate "EUR").map (·.id) = [1] := by
    decide +kernel
  obtain ⟨candidates, hfind, hoffers⟩ := (offersConfirmable_iff caseInsensitive
    (sampleCandidateDb_reachable "EUR") sampleCandidateDb_account.1 (sampleBankRow sampleDate)).mpr
    ⟨by decide +kernel, by decide +kernel⟩
  obtain ⟨-, hlist⟩ := findMatchCandidatesInWindow_eq_ok.mp hfind
  exact ⟨candidates, hfind, hlist ▸ hids, hoffers⟩

/-- For a bank row of the first day of the calendar no candidates are found: the query raises. For
one of the day of the income row, with the second account in `eur`, that row is offered and cannot
be confirmed, while the bank row can be stored. -/
theorem sampleBankRow_not_offers :
    ((sampleCandidateDb "EUR").ReachableBy (fun _ => True) ∧
      (sampleCandidateDb "EUR").account? sampleChecking.id 1 = some sampleChecking ∧
      findMatchCandidatesInWindow caseInsensitive (sampleCandidateDb "EUR") 1 .expense 10 1
        firstDate "EUR" = .error .dateOverflow ∧
      ¬∃ candidates, findMatchCandidatesInWindow caseInsensitive (sampleCandidateDb "EUR") 1
          .expense 10 1 firstDate "EUR" = .ok candidates ∧
        OffersConfirmable (sampleCandidateDb "EUR") 1 sampleChecking (sampleBankRow firstDate)
          candidates) ∧
    (sampleCandidateDb "eur").ReachableBy (fun _ => True) ∧
      (sampleCandidateDb "eur").account? sampleChecking.id 1 = some sampleChecking ∧
      (findMatchCandidates caseInsensitive (sampleCandidateDb "eur") 1 .expense 10 1 sampleDate
        "EUR").map (·.id) = [1] ∧
      Imports (sampleCandidateDb "eur") 1
        ((sampleConfirm []).only (sampleBankRow sampleDate).asCreate) (some 1) ∧
      ¬Imports (sampleCandidateDb "eur") 1
        ((sampleConfirm []).only ((sampleBankRow sampleDate).asPairWith 1)) (some 1) ∧
      ¬∃ candidates, findMatchCandidatesInWindow caseInsensitive (sampleCandidateDb "eur") 1
          .expense 10 1 sampleDate "EUR" = .ok candidates ∧
        OffersConfirmable (sampleCandidateDb "eur") 1 sampleChecking (sampleBankRow sampleDate)
          candidates := by
  have hraises : findMatchCandidatesInWindow caseInsensitive (sampleCandidateDb "EUR") 1 .expense 10
      1 firstDate "EUR" = .error .dateOverflow := by
    unfold findMatchCandidatesInWindow
    rw [raiseIf_of (by decide)]
    rfl
  have hids : (findMatchCandidates caseInsensitive (sampleCandidateDb "eur") 1 .expense 10 1
      sampleDate "EUR").map (·.id) = [1] := by
    decide +kernel
  have hcreate : Imports (sampleCandidateDb "eur") 1
      ((sampleConfirm []).only (sampleBankRow sampleDate).asCreate) (some 1) :=
    imports_iff.mpr (by decide +kernel)
  have hpair : ¬Imports (sampleCandidateDb "eur") 1
      ((sampleConfirm []).only ((sampleBankRow sampleDate).asPairWith 1)) (some 1) := by
    rw [imports_iff]
    decide +kernel
  obtain ⟨haccount, haccount'⟩ := sampleCandidateDb_account
  refine ⟨⟨sampleCandidateDb_reachable "EUR", haccount, hraises, ?_⟩,
    sampleCandidateDb_reachable "eur", haccount', hids, hcreate, hpair, ?_⟩
  · rintro ⟨candidates, hfind, -⟩
    rw [hraises] at hfind
    exact absurd hfind (by simp)
  · rintro ⟨candidates, hfind, hoffers⟩
    obtain ⟨-, hlist⟩ := findMatchCandidatesInWindow_eq_ok.mp hfind
    rw [hlist] at hids
    obtain ⟨c, hc, hid⟩ := List.mem_map.mp (hids ▸ List.mem_singleton_self 1)
    exact hpair (hid ▸ hoffers.confirmable c hc _ rfl _ hcreate)

end Pfv
