import Mathlib.Data.List.TakeWhile
import Pfv.Ledger.Adjustments
import Pfv.Ledger.BatchEntry
import Pfv.Services.Categories

/-!
# The target of an adjustment

A manual adjustment sets a balance by a synthetic row for the difference. The row goes through the
schema and the checks of every other row: its amount must fit the column of amounts, and the system
category of adjustments, which the organisation may retype or hang under a master, must admit its
type. Past these two the balance is the target, and nothing but the account, the new row and a
missing category has changed.

## Main definitions

* `AdmitsAdjustment`: the category of adjustments, if it is there, admits a type.
* `Db.AdjustedTo`: what an adjustment leaves.

## Main results

* `adjustmentBody_eq_ok`: the body of the new row.
* `adjustedTo_iff`: when an adjustment succeeds and reaches its target.
-/

namespace Pfv

/-! ### The body of the row -/

/-- A string that begins with a visible character is not blank. -/
theorem strip_ne_empty {s : String} {c : Char} {cs : List Char} (h : s.toList = c :: cs)
    (hc : isSpace c = false) : strip s ≠ "" := by
  intro hempty
  have hlist := congrArg String.toList hempty
  have hnot : ¬isSpace c = true := by simp [hc]
  rw [strip, String.toList_ofList, h, List.dropWhile_cons_of_neg hnot, String.toList_empty,
    List.reverse_eq_nil_iff, List.dropWhile_eq_nil_iff] at hlist
  exact hnot (hlist c (by simp))

/-- The description of an adjustment passes the schema, whatever the reason. -/
theorem adjustmentDescription_ofRaw (oldBalance : ℤ) (body : BalanceAdjustmentRequest) :
    ∃ d, Description.ofRaw (adjustmentDescription oldBalance body) = some d := by
  have hlength : (adjustmentDescription oldBalance body).length ≤ 255 := by
    unfold adjustmentDescription
    rw [String.length_ofList]
    exact List.length_take_le 255 _
  have hhead : ∀ text : String, strip (String.ofList
      (("Balance adjustment: " ++ text).toList.take 255)) ≠ "" := by
    intro text
    refine @strip_ne_empty _ 'B' (("alance adjustment: ".toList ++ text.toList).take 254) ?_
      (by decide)
    rw [String.toList_ofList, String.toList_append]
    simp
  have hstrip : strip (adjustmentDescription oldBalance body) ≠ "" := by
    unfold adjustmentDescription
    rw [String.append_assoc, String.append_assoc]
    cases body.reason with
    | none => exact hhead _
    | some reason =>
      dsimp only
      split_ifs
      · exact hhead _
      · rw [String.append_assoc, String.append_assoc]
        rw [String.append_assoc]
        exact hhead _
  exact ⟨_, dif_pos ⟨hlength, hstrip⟩⟩

section

variable {db db' : Db} {org accountId : ℕ} {acct : Account} {body : BalanceAdjustmentRequest}
  {today : Date} {oldBalance : ℤ} {categoryId : ℕ}

/-- The type of the row of an adjustment. -/
def adjustmentType (oldBalance : ℤ) (body : BalanceAdjustmentRequest) : EntryType :=
  if 0 < body.targetBalance - oldBalance then .income else .expense

/-- What the body of an adjustment says. -/
structure TransactionCreate.Adjusts (txBody : TransactionCreate) (accountId categoryId : ℕ)
    (oldBalance : ℤ) (body : BalanceAdjustmentRequest) : Prop where
  account : txBody.accountId = accountId
  category : txBody.categoryId = categoryId
  amount : txBody.amount.cents = |body.targetBalance - oldBalance|
  type : txBody.type = adjustmentType oldBalance body
  status : txBody.status = .settled

/-- The body of an adjustment exists when the difference fits the column of amounts. -/
theorem adjustmentBody_ok {txBody : TransactionCreate}
    (h : adjustmentBody accountId categoryId oldBalance body today = .ok txBody) :
    |body.targetBalance - oldBalance| < 10 ^ 12 ∧
      txBody.Adjusts accountId categoryId oldBalance body := by
  unfold adjustmentBody at h
  simp only [bind_eq_ok, orRaise_eq_ok, pure_eq_ok] at h
  obtain ⟨d, -, amount, hamount, rfl⟩ := h
  unfold Amount.ofCents at hamount
  split_ifs at hamount with hrange
  cases hamount
  exact ⟨hrange.2, rfl, rfl, rfl, rfl, rfl⟩

theorem exists_adjustmentBody (hne : body.targetBalance ≠ oldBalance)
    (hlt : |body.targetBalance - oldBalance| < 10 ^ 12) :
    ∃ txBody, adjustmentBody accountId categoryId oldBalance body today = .ok txBody := by
  obtain ⟨d, hd⟩ := adjustmentDescription_ofRaw oldBalance body
  have hamount : Amount.ofCents |body.targetBalance - oldBalance| = some ⟨_, _, hlt⟩ :=
    dif_pos ⟨abs_pos.mpr (sub_ne_zero.mpr hne), hlt⟩
  unfold adjustmentBody
  dsimp only
  rw [hd, hamount]
  exact ⟨_, rfl⟩

/-- The signed amount of the row is the difference. -/
theorem signed_adjustmentType (oldBalance : ℤ) (body : BalanceAdjustmentRequest) :
    (adjustmentType oldBalance body).toTransactionType.signed |body.targetBalance - oldBalance| =
      body.targetBalance - oldBalance := by
  unfold adjustmentType
  split_ifs with h
  · exact abs_of_pos h
  · show -|body.targetBalance - oldBalance| = _
    rw [abs_of_nonpos (not_lt.mp h), neg_neg]

/-! ### The category -/

/-- The category of adjustments of an organisation, if it is there, admits a type. -/
def AdmitsAdjustment (db : Db) (org : ℕ) (type : EntryType) : Prop :=
  ∀ cat, db.categories.rows.find? (fun c =>
      c.slug = some "balance-adjustment" ∧ c.orgId = org ∧ c.isSystem = true) = some cat →
    validateCategoryForType db cat.id org type.toTransactionType = .ok ()

theorem categoryTypeMatches_both (type : TransactionType) :
    categoryTypeMatches .both type = true := by
  cases type <;> rfl

theorem getOrCreateBalanceAdjustmentCategory_validates (type : EntryType) :
    validateCategoryForType (getOrCreateBalanceAdjustmentCategory db org).1
        (getOrCreateBalanceAdjustmentCategory db org).2 org type.toTransactionType = .ok () ↔
      AdmitsAdjustment db org type := by
  unfold getOrCreateBalanceAdjustmentCategory AdmitsAdjustment
  cases hfind : db.categories.rows.find? (fun c =>
    c.slug = some "balance-adjustment" ∧ c.orgId = org ∧ c.isSystem = true) with
  | some cat => simp
  | none =>
    refine iff_of_true ?_ (by simp)
    -- The new category admits both types and has no master.
    set newCat : Category :=
      { orgId := org, name := "Balance Adjustment", slug := some "balance-adjustment"
        type := .both, isSystem := true }
    have hnew : ({ db with categories := db.categories.insert newCat } : Db).category?
        db.categories.next org = some { newCat with id := db.categories.next } :=
      Option.filter_eq_some_iff.mpr ⟨Table.get?_insert_next db.categories newCat, by simp [newCat]⟩
    dsimp only
    unfold validateCategoryForType
    rw [hnew, bind_of_ok (orRaise_eq_ok.mpr rfl)]
    simp only [newCat, categoryTypeMatches_both, Bool.true_eq_false, raiseIf, if_false]
    rfl

/-! ### The adjustment -/

/-- An adjustment is accepted when its difference fits the column of amounts and the category admits
its type; then it posts the row. -/
theorem adjustAccountBalance_eq_ok {tx : Transaction}
    (hacct : db.account? accountId org = some acct) (hne : body.targetBalance ≠ acct.balance) :
    adjustAccountBalance db org accountId body today = .ok (db', tx) ↔
      ∃ db₁ id txBody, getOrCreateBalanceAdjustmentCategory db org = (db₁, id) ∧
        adjustmentBody accountId id acct.balance body today = .ok txBody ∧
        Accepts db₁ org txBody ∧ db' = db₁.post (txBody.row org false true none) ∧
        tx = { txBody.row org false true none with id := db₁.transactions.next } := by
  have hdelta : ¬body.targetBalance - acct.balance = 0 := sub_ne_zero.mpr hne
  unfold adjustAccountBalance
  rw [bind_of_ok (getAccountForUpdate_eq_ok.mpr hacct), bind_of_ok (raiseIf_of_not hdelta)]
  rcases hcat : getOrCreateBalanceAdjustmentCategory db org with ⟨db₁, id⟩
  dsimp only
  rw [bind_eq_ok]
  constructor
  · rintro ⟨txBody, hbody, hcreate⟩
    have hspec := createTransactionNoCommit_eq_ok.mp hcreate
    exact ⟨db₁, id, txBody, rfl, hbody, hspec⟩
  · rintro ⟨db₂, id', txBody, heq, hbody, hspec⟩
    cases heq
    exact ⟨txBody, hbody, createTransactionNoCommit_eq_ok.mpr hspec⟩

end

/-- An adjustment of an account has reached its target: the balance is the target, one row was
added, a settled manual adjustment over the difference on the account, and no other row, account,
template, batch or account type has changed. -/
structure Db.AdjustedTo (db db' : Db) (org : ℕ) (acct : Account) (body : BalanceAdjustmentRequest)
    (tx : Transaction) : Prop where
  account : db'.accounts.get? acct.id = some { acct with balance := body.targetBalance }
  others : ∀ k, k ≠ acct.id → db'.accounts.get? k = db.accounts.get? k
  rows : db'.transactions.rows = db.transactions.rows ++ [tx]
  owner : tx.orgId = org ∧ tx.accountId = acct.id
  manual : tx.isManualAdjustment = true
  settled : tx.status = .settled
  type : tx.type = if acct.balance < body.targetBalance then .income else .expense
  amount : tx.amount = |body.targetBalance - acct.balance|
  rest : db'.recurring = db.recurring ∧ db'.importBatches = db.importBatches ∧
    db'.accountTypes = db.accountTypes

section

variable {db : Db} {org accountId : ℕ} {acct : Account} {body : BalanceAdjustmentRequest}
  {today : Date}

/-- Posting the row of an adjustment reaches the target. -/
theorem adjustedTo_post {db₁ : Db} (hcat : db.MayAddCategory db₁) {categoryId : ℕ}
    {txBody : TransactionCreate} (hbody : txBody.Adjusts acct.id categoryId acct.balance body)
    (hacct : db.accounts.get? acct.id = some acct) :
    db.AdjustedTo (db₁.post (txBody.row org false true none)) org acct body
      { txBody.row org false true none with id := db₁.transactions.next } := by
  have haccounts : db₁.accounts = db.accounts := hcat.accounts
  have hamount : (txBody.row org false true none).settledAmount =
      body.targetBalance - acct.balance := by
    have hsettled : (txBody.row org false true none).status = .settled := hbody.status
    rw [Transaction.settledAmount, if_pos hsettled, ← signed_adjustmentType acct.balance body,
      ← hbody.amount, ← hbody.type]
    rfl
  have hget : ∀ k, (db₁.post (txBody.row org false true none)).accounts.get? k =
      (db.accounts.get? k).map fun a =>
        if k = acct.id then { a with balance := a.balance + (body.targetBalance - acct.balance) }
        else a := by
    intro k
    rw [Db.post, Db.addTransaction, Db.get?_credit, haccounts, hamount]
    simp only [TransactionCreate.row, hbody.account]
  refine ⟨?_, fun k hk => ?_, ?_, ⟨rfl, hbody.account⟩, rfl, hbody.status, ?_, hbody.amount, ?_⟩
  · rw [hget, hacct, Option.map_some, if_pos rfl, add_sub_cancel]
  · rw [hget]
    simp [hk]
  · rw [Db.post_transactions, hcat.transactions]
    rfl
  · have htype : ({ txBody.row org false true none with id := db₁.transactions.next } :
        Transaction).type = txBody.type.toTransactionType := rfl
    rw [htype, hbody.type, adjustmentType]
    simp only [sub_pos]
    split_ifs <;> rfl
  · rcases hcat with rfl | ⟨c, rfl⟩
    · exact ⟨rfl, rfl, rfl⟩
    · exact ⟨rfl, rfl, rfl⟩

/-- An adjustment to a balance other than the stored one succeeds and reaches its target, for every
database, account and target, if and only if the difference fits the column of amounts and the
organisation's category of adjustments, if there is one, admits the type of the row. -/
theorem adjustedTo_iff (hacct : db.account? accountId org = some acct)
    (hne : body.targetBalance ≠ acct.balance) :
    (∃ db' tx, adjustAccountBalance db org accountId body today = .ok (db', tx) ∧
        db.AdjustedTo db' org acct body tx) ↔
      |body.targetBalance - acct.balance| < 10 ^ 12 ∧
        AdmitsAdjustment db org (adjustmentType acct.balance body) := by
  obtain ⟨hget, -⟩ := Db.account?_eq_some.mp hacct
  have hid : acct.id = accountId := Table.get?_id hget
  have hmay := getOrCreateBalanceAdjustmentCategory_mayAdd db org
  have hvalid := @getOrCreateBalanceAdjustmentCategory_validates db org
    (adjustmentType acct.balance body)
  constructor
  · rintro ⟨db', tx, hadjust, -⟩
    obtain ⟨db₁, id, txBody, hcat, hbody, haccepts, -⟩ :=
      (adjustAccountBalance_eq_ok hacct hne).mp hadjust
    obtain ⟨hlt, hadjusts⟩ := adjustmentBody_ok hbody
    refine ⟨hlt, hvalid.mp ?_⟩
    rw [hcat, ← hadjusts.type, ← hadjusts.category]
    exact haccepts.2.1
  · rintro ⟨hlt, hadmits⟩
    rcases hcat : getOrCreateBalanceAdjustmentCategory db org with ⟨db₁, id⟩
    rw [hcat] at hmay hvalid
    obtain ⟨txBody, hbody⟩ := @exists_adjustmentBody accountId body today acct.balance id hne hlt
    obtain ⟨-, hadjusts⟩ := adjustmentBody_ok hbody
    have hadjusted : db.AdjustedTo (db₁.post (txBody.row org false true none)) org acct body _ :=
      adjustedTo_post hmay (hid ▸ hadjusts) (hid ▸ hget)
    have haccepts : Accepts db₁ org txBody := by
      refine ⟨?_, ?_, fun _ => ?_⟩
      · rw [hadjusts.account, Db.account?, hmay.accounts, ← Db.account?, hacct, Option.isSome_some]
      · rw [hadjusts.category, hadjusts.type]
        exact hvalid.mpr hadmits
      · -- The balance after the row is the target, which the schema bounds.
        intro a ha
        rw [hadjusts.account, ← hid] at ha
        obtain rfl := Option.some_inj.mp (hadjusted.account.symm.trans ha)
        exact abs_lt.mpr ⟨body.lower, body.upper⟩
    exact ⟨_, _, (adjustAccountBalance_eq_ok hacct hne).mpr
      ⟨db₁, id, txBody, hcat, hbody, haccepts, rfl, rfl⟩, hadjusted⟩

end

/-! ### Sample adjustments -/

/-- An account that was opened with a debt of 5,000,000,000.00. -/
def sampleIndebted : Db :=
  serveAll Request.step sampleDb
    [.createAccount 1
      { name := "Loan", accountTypeId := 1, openingBalance := -500000000000
        closeDay_range := noCloseDay_range, lower := by decide, upper := by decide } sampleDate]

/-- A target of 9,999,999,999.99, the largest that is admitted. -/
def sampleLargest : BalanceAdjustmentRequest where
  targetBalance := 999999999999
  targetText := "9999999999.99"
  lower := by decide
  upper := by decide

/-- A target of -50.00. -/
def sampleOverdraft : BalanceAdjustmentRequest where
  targetBalance := -5000
  targetText := "-50.00"
  lower := by decide
  upper := by decide

/-- The books of a ledger. -/
def Db.books (db : Db) : Books where
  toDb := db
  categoryRules := .empty
  budgets := .empty
  forecastPlans := .empty
  forecastPlanItems := .empty

/-- The category of adjustments of the sample ledger is made an income category. -/
def sampleRetyped : Except ServiceError Books :=
  updateCategory
    (serveAll Request.step sampleDb
      [sampleAccount "Checking", .adjust 1 1 sampleAdjustment sampleDate]).books 1 2
    { type := some .income }

/-- Two adjustments to admitted targets raise: one over a difference of more than ten digits, and a
withdrawal after the category of adjustments was made an income category. -/
theorem sampleAdjustments_raise :
    (adjustAccountBalance sampleIndebted 1 1 sampleLargest sampleDate).isOk = false ∧
      sampleRetyped.isOk = true ∧
      (sampleRetyped >>= fun books =>
        adjustAccountBalance books.toDb 1 1 sampleOverdraft sampleDate).isOk = false := by
  refine ⟨?_, ?_, ?_⟩
  · decide +kernel
  · decide +kernel
  · decide +kernel

/-- A deposit into a fresh account reaches its target. -/
theorem adjustedTo_sampleAdjustment :
    ∃ db' tx, adjustAccountBalance (serveAll Request.step sampleDb [sampleAccount "Checking"]) 1 1
        sampleAdjustment sampleDate = .ok (db', tx) ∧
      (serveAll Request.step sampleDb [sampleAccount "Checking"]).AdjustedTo db' 1
        { id := 1, orgId := 1, accountTypeId := 1, name := "Checking",
          openingBalanceDate := sampleDate }
        sampleAdjustment tx := by
  refine (adjustedTo_iff ?_ (by decide)).mpr ⟨by decide, fun cat hcat => ?_⟩
  · decide +kernel
  · have hnone : (serveAll Request.step sampleDb [sampleAccount "Checking"]).categories.rows.find?
        (fun c => c.slug = some "balance-adjustment" ∧ c.orgId = 1 ∧ c.isSystem = true) = none := by
      decide +kernel
    rw [hnone] at hcat
    cases hcat

end Pfv
