import Pfv.Services.TransactionBatch
import Pfv.Categories.Choices
import Pfv.Ledger.Requests

/-!
# A batch against single entries

A batch of transactions leaves the ledger and the rules of the same rows entered one by one: a row
that the database refuses takes its balance change back on both paths, so each row meets the same
ledger, and learning afterwards in the order of the rows is learning after each of them. The answers
agree too, except for a row that is stored and then teaches a rule that the database refuses: the
batch counts it as imported, the single entry raises after its commit.

## Main definitions

* `Accepts`: the checks that a row passes.
* `checked`, `accepted`: whether each row of a batch passes them after the rows before it, and the
  rows that do.
* `Learnable`: the rule that a row teaches can be written.
* `RefinesSingles`: a batch and the single entries agree in what they leave and answer.

## Main results

* `createTransactionNoCommit_eq_ok`, `enter_of_accepts`: what one row does.
* `foldl_store`, `foldl_enter`: what the rows of a batch do.
* `refinesSingles_iff`: the agreement, and its condition.
-/

namespace Pfv

/-! ### One row -/

/-- The checks of a new row: its account and its category are there, the category admits its type,
and when the row is settled the balance after it fits its column. -/
def Accepts (db : Db) (org : ℕ) (body : TransactionCreate) : Prop :=
  (db.account? body.accountId org).isSome = true ∧
    validateCategoryForType db body.categoryId org body.type.toTransactionType = .ok () ∧
    (body.status = .settled →
      (db.post (body.row org false false none)).BalanceFits body.accountId)

instance (db : Db) (org : ℕ) (body : TransactionCreate) : Decidable (Accepts db org body) :=
  inferInstanceAs (Decidable (_ ∧ _))

section

variable {normalizeDescription : String → String} {db db' : Db} {org : ℕ}
  {body : TransactionCreate} {rules rules' : Table CategoryRule}

theorem TransactionCreate.row_flushable (body : TransactionCreate) (org : ℕ)
    (isImported isManualAdjustment : Bool) :
    (body.row org isImported isManualAdjustment none).Flushable := by
  refine ⟨fun hsettled => ?_, body.description.length_le, body.amount.inColumn, rfl⟩
  have hstatus : body.status = .settled := hsettled
  simp [row, hstatus]

theorem toTransactionType_ne_transfer (type : EntryType) : type.toTransactionType ≠ .transfer := by
  cases type <;> simp [EntryType.toTransactionType]

/-- A row is stored when it passes its checks. -/
theorem createTransactionNoCommit_eq_ok {isImported isManualAdjustment : Bool} {tx : Transaction} :
    createTransactionNoCommit db org body isImported isManualAdjustment none = .ok (db', tx) ↔
      Accepts db org body ∧ db' = db.post (body.row org isImported isManualAdjustment none) ∧
        tx = { body.row org isImported isManualAdjustment none with
          id := db.transactions.next } := by
  constructor
  · intro h
    obtain ⟨⟨acct, hacct⟩, hdb, htx⟩ := createTransactionNoCommit_ok h
    unfold createTransactionNoCommit at h
    simp only [↓unit_bind_eq_ok, bind_eq_ok, postSettled_eq_ok, insertPosted_eq_ok] at h
    obtain ⟨-, hcat, _, ⟨-, rfl⟩, hfits, -⟩ := h
    exact ⟨⟨by rw [hacct, Option.isSome_some], hcat, hfits⟩, hdb, htx⟩
  · rintro ⟨⟨hacct, hcat, hfits⟩, rfl, rfl⟩
    obtain ⟨acct, hacct⟩ := Option.isSome_iff_exists.mp hacct
    unfold createTransactionNoCommit
    simp only [↓unit_bind_eq_ok, bind_eq_ok, validateAccount_eq_ok, postSettled_eq_ok,
      insertPosted_eq_ok]
    exact ⟨⟨acct, hacct⟩, hcat, _,
      ⟨fun _ => ⟨⟨acct, hacct⟩, toTransactionType_ne_transfer body.type⟩, rfl⟩, hfits,
      body.row_flushable org isImported isManualAdjustment, rfl, rfl⟩

/-- A row that does not pass its checks raises. -/
theorem exists_error_of_not_accepts (h : ¬Accepts db org body) :
    ∃ e, createTransactionNoCommit db org body false false none = .error e := by
  cases hcreate : createTransactionNoCommit db org body false false none with
  | error e => exact ⟨e, rfl⟩
  | ok x => exact absurd (createTransactionNoCommit_eq_ok.mp hcreate).1 h

/-! ### Learning -/

/-- The rule that a row teaches can be written: its token fits the column, or the rule is there. -/
def Learnable (normalizeDescription : String → String) (rules : Table CategoryRule) (org : ℕ)
    (body : TransactionCreate) : Prop :=
  64 < (normalizeDescription body.description.text).length →
    (ruleFor rules org (normalizeDescription body.description.text)).isSome = true

instance (rules : Table CategoryRule) (org : ℕ) (body : TransactionCreate) :
    Decidable (Learnable normalizeDescription rules org body) :=
  inferInstanceAs (Decidable (_ → _))

/-- The choice of a category that a row makes. -/
def TransactionCreate.learnCall (body : TransactionCreate) (db : Db) (org : ℕ) : LearnCall where
  db := db
  org := org
  description := body.description.text
  categoryId := body.categoryId
  source := .userEdit

/-- The rules after a row has taught its category, if it could. -/
def learnedFrom (normalizeDescription : String → String) (db : Db) (org : ℕ)
    (rules : Table CategoryRule) (body : TransactionCreate) : Table CategoryRule :=
  match (body.learnCall db org).serve normalizeDescription rules with
  | .ok rules => rules
  | .error _ => rules

theorem Accepts.isSome_category (h : Accepts db org body) :
    (db.categories.get? body.categoryId).isSome = true := by
  have hcat := h.2.1
  unfold validateCategoryForType at hcat
  simp only [bind_eq_ok, orRaise_eq_ok] at hcat
  obtain ⟨cat, hcat, -⟩ := hcat
  rw [(Option.filter_eq_some_iff.mp hcat).1, Option.isSome_some]

/-- A row that is stored teaches its category when the rule can be written. -/
theorem Accepts.serve_ok_iff (h : Accepts db org body) :
    (∃ rules', (body.learnCall db org).serve normalizeDescription rules = .ok rules') ↔
      Learnable normalizeDescription rules org body := by
  have hcat : ¬(db.categories.get? body.categoryId).isNone = true := by
    rw [Option.isNone_iff_eq_none, ← ne_eq, Option.ne_none_iff_isSome]
    exact h.isSome_category
  unfold LearnCall.serve learnFromChoice Learnable TransactionCreate.learnCall
  dsimp only
  split_ifs with htoken
  · simp [pure_eq_ok, htoken]
  · simp only [raiseIf_bind_eq_ok, hcat]
    cases hrule : ruleFor rules org (normalizeDescription body.description.text) with
    | none =>
      simp only [raiseIf_bind_eq_ok, pure_eq_ok, Option.isSome_none]
      simp
    | some rule => simp [pure_eq_ok]

theorem isSome_ruleFor_iff {token : String} :
    (ruleFor rules org token).isSome = true ↔
      ∃ r ∈ rules.rows, r.orgId = org ∧ r.normalizedToken = token := by
  simp [ruleFor, List.find?_isSome]

/-- Learning gives no rule to a token that does not fit, and takes none. -/
theorem isSome_ruleFor_learnedFrom (haccepts : Accepts db org body) {token : String}
    (htoken : 64 < token.length) :
    (ruleFor (learnedFrom normalizeDescription db org rules body) org token).isSome =
      (ruleFor rules org token).isSome := by
  unfold learnedFrom
  cases hserve : (body.learnCall db org).serve normalizeDescription rules with
  | error e => rfl
  | ok rules' =>
    dsimp only
    by_cases hon : (body.learnCall db org).On normalizeDescription org token
    · -- The rule was there, and is still there.
      have hlearnable := haccepts.serve_ok_iff.mp ⟨rules', hserve⟩
      have hnorm : normalizeDescription body.description.text = token := hon.2
      have hbefore : (ruleFor rules org token).isSome = true := hnorm ▸ hlearnable (hnorm ▸ htoken)
      obtain ⟨rule, hrule⟩ := Option.isSome_iff_exists.mp hbefore
      rw [hbefore]
      rcases LearnCall.serve_ok hserve with ⟨-, rfl⟩ | ⟨hnone, -⟩ | ⟨rule', hrule', rfl⟩
      · exact hbefore
      · rw [hon.2, hon.1, hrule] at hnone
        cases hnone
      · obtain ⟨hget, horg, hkey⟩ := get?_of_ruleFor hrule'
        refine isSome_ruleFor_iff.mpr ⟨(body.learnCall db org).overwrite rule', ?_, horg,
          hkey.trans hon.2⟩
        exact Table.get?_mem
          (Table.get?_put_self (a := (body.learnCall db org).overwrite rule') hget)
    · rw [ruleFor_eq_head?, ruleFor_eq_head?, rulesFor_of_not_on hserve hon]

theorem learnable_learnedFrom (haccepts : Accepts db org body) (body' : TransactionCreate) :
    Learnable normalizeDescription (learnedFrom normalizeDescription db org rules body) org body' ↔
      Learnable normalizeDescription rules org body' :=
  forall_congr' fun htoken => by rw [isSome_ruleFor_learnedFrom haccepts htoken]

/-! ### The rows of a batch -/

/-- A result names its row, and the stored transaction has what the row teaches. -/
def Stored (db : Db) (org : ℕ) (row : BatchTransactionRow) (result : BatchRowResult) : Prop :=
  result.rowNumber = row.rowNumber ∧ ∃ tx, db.transaction? result.transactionId org = some tx ∧
    tx.description = row.transaction.description.text ∧ tx.categoryId = row.transaction.categoryId

/-- The rows of a batch, each with whether it passes its checks in the ledger that the rows before
it leave. -/
def checked (org : ℕ) : Db → List BatchTransactionRow → List (BatchTransactionRow × Bool)
  | _, [] => []
  | db, row :: rows =>
      if Accepts db org row.transaction then
        (row, true) :: checked org (db.post (row.transaction.row org false false none)) rows
      else (row, false) :: checked org db rows

/-- The rows of a batch that pass their checks. -/
def accepted (db : Db) (org : ℕ) (rows : List BatchTransactionRow) : List BatchTransactionRow :=
  ((checked org db rows).filter (·.2)).map (·.1)

/-- The rows of a batch that do not. -/
def refused (db : Db) (org : ℕ) (rows : List BatchTransactionRow) : List BatchTransactionRow :=
  ((checked org db rows).filter (!·.2)).map (·.1)

theorem map_fst_checked (db : Db) (org : ℕ) (rows : List BatchTransactionRow) :
    (checked org db rows).map (·.1) = rows := by
  induction rows generalizing db with
  | nil => rfl
  | cons row rows ih =>
    unfold checked
    split_ifs <;> rw [List.map_cons, ih]

theorem accepted_cons_of_accepts {row : BatchTransactionRow} {rows : List BatchTransactionRow}
    (h : Accepts db org row.transaction) :
    accepted db org (row :: rows) =
      row :: accepted (db.post (row.transaction.row org false false none)) org rows := by
  rw [accepted, checked, if_pos h]
  rfl

theorem accepted_cons_of_not {row : BatchTransactionRow} {rows : List BatchTransactionRow}
    (h : ¬Accepts db org row.transaction) :
    accepted db org (row :: rows) = accepted db org rows := by
  rw [accepted, checked, if_neg h]
  rfl

theorem refused_cons_of_accepts {row : BatchTransactionRow} {rows : List BatchTransactionRow}
    (h : Accepts db org row.transaction) :
    refused db org (row :: rows) =
      refused (db.post (row.transaction.row org false false none)) org rows := by
  rw [refused, checked, if_pos h]
  rfl

theorem refused_cons_of_not {row : BatchTransactionRow} {rows : List BatchTransactionRow}
    (h : ¬Accepts db org row.transaction) :
    refused db org (row :: rows) = row :: refused db org rows := by
  rw [refused, checked, if_neg h]
  rfl

theorem accepted_append_refused_perm (db : Db) (org : ℕ) (rows : List BatchTransactionRow) :
    (accepted db org rows ++ refused db org rows).Perm rows := by
  rw [accepted, refused, ← List.map_append]
  have hperm := (List.filter_append_perm (·.2) (checked org db rows)).map (·.1)
  rwa [map_fst_checked] at hperm

/-- The ledger after some rows are stored. -/
def postAll (db : Db) (org : ℕ) (rows : List BatchTransactionRow) : Db :=
  rows.foldl (fun db row => db.post (row.transaction.row org false false none)) db

theorem Stored.post {row : BatchTransactionRow} {result : BatchRowResult}
    (h : Stored db org row result) (t : Transaction) : Stored (db.post t) org row result := by
  obtain ⟨hnumber, tx, htx, hrest⟩ := h
  obtain ⟨hget, horg⟩ := Option.filter_eq_some_iff.mp htx
  refine ⟨hnumber, tx, ?_, hrest⟩
  rw [Db.transaction?, Db.get?_post, if_neg (Table.get?_lt hget).ne, hget]
  exact Option.filter_eq_some_iff.mpr ⟨rfl, horg⟩

theorem Stored.postAll {row : BatchTransactionRow} {result : BatchRowResult}
    (rows : List BatchTransactionRow) (h : Stored db org row result) :
    Stored (postAll db org rows) org row result := by
  induction rows generalizing db with
  | nil => exact h
  | cons row' rows ih => exact ih (h.post _)

theorem BatchState.store_of_accepts {s : BatchState} {row : BatchTransactionRow}
    (h : Accepts s.db org row.transaction) :
    s.store org row =
      { s with
        db := s.db.post (row.transaction.row org false false none)
        results := s.results ++ [⟨row.rowNumber, s.db.transactions.next⟩] } := by
  rw [store, createTransactionNoCommit_eq_ok.mpr ⟨h, rfl, rfl⟩]

theorem BatchState.store_of_not_accepts {s : BatchState} {row : BatchTransactionRow}
    (h : ¬Accepts s.db org row.transaction) : ∃ e : ServiceError,
      s.store org row = { s with errors := s.errors ++ [⟨row.rowNumber, errorMessage e⟩] } := by
  obtain ⟨e, he⟩ := exists_error_of_not_accepts h
  exact ⟨e, by rw [store, he]⟩

theorem stored_post_next (db : Db) (org : ℕ) (row : BatchTransactionRow) :
    Stored (db.post (row.transaction.row org false false none)) org row
      ⟨row.rowNumber, db.transactions.next⟩ := by
  refine ⟨rfl, { row.transaction.row org false false none with id := db.transactions.next }, ?_,
    rfl, rfl⟩
  rw [Db.transaction?, Db.get?_post_next]
  exact Option.filter_eq_some_iff.mpr ⟨rfl, by simp [TransactionCreate.row]⟩

/-- What storing the rows of a batch leaves and answers. -/
theorem foldl_store (rows : List BatchTransactionRow) (s : BatchState) :
    (rows.foldl (BatchState.store org) s).db = postAll s.db org (accepted s.db org rows) ∧
      (rows.foldl (BatchState.store org) s).errors.map (·.rowNumber) =
        s.errors.map (·.rowNumber) ++ (refused s.db org rows).map (·.rowNumber) ∧
      ∃ new, (rows.foldl (BatchState.store org) s).results = s.results ++ new ∧
        List.Forall₂ (Stored (postAll s.db org (accepted s.db org rows)) org)
          (accepted s.db org rows) new := by
  induction rows generalizing s with
  | nil => exact ⟨rfl, (List.append_nil _).symm, [], (List.append_nil _).symm, .nil⟩
  | cons row rows ih =>
    rw [List.foldl_cons]
    obtain ⟨hdb, herrors, new, hnew, hstored⟩ := ih (s.store org row)
    by_cases h : Accepts s.db org row.transaction
    · rw [accepted_cons_of_accepts h, refused_cons_of_accepts h]
      rw [BatchState.store_of_accepts h] at hdb herrors hnew hstored ⊢
      refine ⟨hdb, herrors, ⟨row.rowNumber, s.db.transactions.next⟩ :: new, ?_, ?_⟩
      · rw [hnew, List.append_assoc, List.singleton_append]
      · exact .cons ((stored_post_next s.db org row).postAll _) hstored
    · rw [accepted_cons_of_not h, refused_cons_of_not h]
      obtain ⟨e, he⟩ := BatchState.store_of_not_accepts h
      rw [he] at hdb herrors hnew hstored ⊢
      refine ⟨hdb, ?_, new, hnew, hstored⟩
      rw [herrors, List.map_append, List.append_assoc]
      rfl

/-- Learning from a stored row is learning from the row of the request. -/
theorem learnFromResult_eq {row : BatchTransactionRow} {result : BatchRowResult}
    (h : Stored db org row result) (rules : Table CategoryRule) :
    learnFromResult normalizeDescription db org rules result =
      learnedFrom normalizeDescription db org rules row.transaction := by
  obtain ⟨-, tx, htx, hdescription, hcategory⟩ := h
  rw [learnFromResult, getTransaction, bind_of_ok (orRaise_eq_ok.mpr htx), hdescription, hcategory]
  rfl

theorem foldl_learnFromResult {rows : List BatchTransactionRow} {results : List BatchRowResult}
    (h : List.Forall₂ (Stored db org) rows results) (rules : Table CategoryRule) :
    results.foldl (learnFromResult normalizeDescription db org) rules =
      rows.foldl (fun rules row => learnedFrom normalizeDescription db org rules row.transaction)
        rules := by
  induction h generalizing rules with
  | nil => rfl
  | cons hrow _ ih => rw [List.foldl_cons, List.foldl_cons, learnFromResult_eq hrow, ih]

theorem map_rowNumber_of_stored {rows : List BatchTransactionRow} {results : List BatchRowResult}
    (h : List.Forall₂ (Stored db org) rows results) :
    results.map (·.rowNumber) = rows.map (·.rowNumber) := by
  induction h with
  | nil => rfl
  | cons hrow _ ih => rw [List.map_cons, List.map_cons, hrow.1, ih]

/-! ### The rows one by one -/

/-- What the entry of a row leaves, and whether it raises. -/
theorem enter_of_accepts {s : SingleEntries} {row : BatchTransactionRow}
    (h : Accepts s.books.toDb org row.transaction) :
    s.enter normalizeDescription org row =
      { books :=
          { s.books with
            toDb := s.books.toDb.post (row.transaction.row org false false none)
            categoryRules := learnedFrom normalizeDescription s.books.toDb org s.books.categoryRules
              row.transaction }
        succeeded := s.succeeded ++
          if Learnable normalizeDescription s.books.categoryRules org row.transaction
            then [row.rowNumber] else []
        raised := s.raised ++
          if Learnable normalizeDescription s.books.categoryRules org row.transaction
            then [] else [row.rowNumber] } := by
  have hcreate : createTransactionNoCommit s.books.toDb org row.transaction false false none =
      .ok (_, _) := createTransactionNoCommit_eq_ok.mpr ⟨h, rfl, rfl⟩
  have hlearn : (∃ rules', (row.transaction.learnCall s.books.toDb org).serve normalizeDescription
      s.books.categoryRules = .ok rules') ↔
        Learnable normalizeDescription s.books.categoryRules org row.transaction := h.serve_ok_iff
  -- The new row changes nothing that learning reads.
  have hserve : learnFromChoice normalizeDescription
      (s.books.toDb.post (row.transaction.row org false false none)) s.books.categoryRules org
        row.transaction.description.text row.transaction.categoryId .userEdit =
      (row.transaction.learnCall s.books.toDb org).serve normalizeDescription
        s.books.categoryRules := rfl
  unfold SingleEntries.enter enterTransaction createTransaction learnedFrom
  rw [hcreate]
  dsimp only
  rw [if_neg (by simp), hserve]
  cases hresult : (row.transaction.learnCall s.books.toDb org).serve normalizeDescription
      s.books.categoryRules with
  | ok rules =>
    rw [if_pos (hlearn.mp ⟨rules, hresult⟩), if_pos (hlearn.mp ⟨rules, hresult⟩), List.append_nil]
  | error e =>
    have hnot : ¬Learnable normalizeDescription s.books.categoryRules org row.transaction := by
      rw [← hlearn, hresult]
      simp
    rw [if_neg hnot, if_neg hnot, List.append_nil]

theorem enter_of_not_accepts {s : SingleEntries} {row : BatchTransactionRow}
    (h : ¬Accepts s.books.toDb org row.transaction) :
    s.enter normalizeDescription org row = { s with raised := s.raised ++ [row.rowNumber] } := by
  obtain ⟨e, he⟩ := exists_error_of_not_accepts h
  rw [SingleEntries.enter, enterTransaction, createTransaction, he]

/-- The rows that a single entry stores without raising. -/
def Succeeds (normalizeDescription : String → String) (rules : Table CategoryRule) (org : ℕ)
    (v : BatchTransactionRow × Bool) : Prop :=
  v.2 = true ∧ Learnable normalizeDescription rules org v.1.transaction

instance (rules : Table CategoryRule) (org : ℕ) (v : BatchTransactionRow × Bool) :
    Decidable (Succeeds normalizeDescription rules org v) :=
  inferInstanceAs (Decidable (_ ∧ _))

/-- What entering rows one by one leaves, and which of them raise. -/
theorem foldl_enter (rows : List BatchTransactionRow) (s : SingleEntries) :
    rows.foldl (SingleEntries.enter normalizeDescription org) s =
      { books :=
          { s.books with
            toDb := postAll s.books.toDb org (accepted s.books.toDb org rows)
            categoryRules := (accepted s.books.toDb org rows).foldl
              (fun rules row =>
                learnedFrom normalizeDescription s.books.toDb org rules row.transaction)
              s.books.categoryRules }
        succeeded := s.succeeded ++
          ((checked org s.books.toDb rows).filter
            (Succeeds normalizeDescription s.books.categoryRules org ·)).map (·.1.rowNumber)
        raised := s.raised ++
          ((checked org s.books.toDb rows).filter
            (¬Succeeds normalizeDescription s.books.categoryRules org ·)).map
              (·.1.rowNumber) } := by
  induction rows generalizing s with
  | nil => simp [accepted, checked, postAll]
  | cons row rows ih =>
    rw [List.foldl_cons, ih]
    by_cases h : Accepts s.books.toDb org row.transaction
    · -- Learning from the row lets no other row be learned, or not be learned.
      have hlater : ∀ v : BatchTransactionRow × Bool, Succeeds normalizeDescription
          (learnedFrom normalizeDescription s.books.toDb org s.books.categoryRules row.transaction)
            org v ↔ Succeeds normalizeDescription s.books.categoryRules org v := fun v =>
        and_congr_right fun _ => learnable_learnedFrom h v.1.transaction
      rw [enter_of_accepts h, accepted_cons_of_accepts h, checked, if_pos h]
      simp only [hlater, List.filter_cons]
      by_cases hlearn : Learnable normalizeDescription s.books.categoryRules org row.transaction
      · have hsucceeds : Succeeds normalizeDescription s.books.categoryRules org (row, true) :=
          ⟨rfl, hlearn⟩
        simp only [hlearn, hsucceeds, decide_true, decide_false, not_true_eq_false, if_true,
          Bool.false_eq_true, if_false, List.append_nil, List.map_cons, List.append_assoc,
          List.singleton_append]
        rfl
      · have hraises : ¬Succeeds normalizeDescription s.books.categoryRules org (row, true) :=
          fun hs => hlearn hs.2
        simp only [hlearn, hraises, decide_true, decide_false, not_false_eq_true, if_true,
          Bool.false_eq_true, if_false, List.append_nil, List.map_cons, List.append_assoc,
          List.singleton_append]
        rfl
    · have hraises : ¬Succeeds normalizeDescription s.books.categoryRules org (row, false) :=
        fun hs => Bool.false_ne_true hs.1
      rw [enter_of_not_accepts h, accepted_cons_of_not h, checked, if_neg h]
      simp only [List.filter_cons, hraises, decide_true, decide_false, not_false_eq_true, if_true,
        Bool.false_eq_true, if_false, List.map_cons, List.append_assoc, List.singleton_append]

/-! ### The agreement -/

/-- A batch and the single entries of its rows: they leave the same, the results and the errors of
the batch name the rows that succeed and raise one by one, every row once and in order, and the
counts add up. -/
structure RefinesSingles (normalizeDescription : String → String) (books : Books) (org : ℕ)
    (body : BatchTransactionsRequest) : Prop where
  books_eq : (createBatch normalizeDescription books org body).1 =
    (enterOneByOne normalizeDescription books org body.rows).books
  results_eq : (createBatch normalizeDescription books org body).2.results.map (·.rowNumber) =
    (enterOneByOne normalizeDescription books org body.rows).succeeded
  errors_eq : (createBatch normalizeDescription books org body).2.errors.map (·.rowNumber) =
    (enterOneByOne normalizeDescription books org body.rows).raised
  results_sublist : (createBatch normalizeDescription books org body).2.results.map (·.rowNumber)
    |>.Sublist (body.rows.map (·.rowNumber))
  errors_sublist : (createBatch normalizeDescription books org body).2.errors.map (·.rowNumber)
    |>.Sublist (body.rows.map (·.rowNumber))
  once : ((createBatch normalizeDescription books org body).2.results.map (·.rowNumber) ++
    (createBatch normalizeDescription books org body).2.errors.map (·.rowNumber)).Perm
      (body.rows.map (·.rowNumber))
  counts : (createBatch normalizeDescription books org body).2.importedCount +
    (createBatch normalizeDescription books org body).2.errorCount = body.rows.length

/-- The new rows change nothing that learning reads. -/
theorem learnedFrom_postAll (rows : List BatchTransactionRow) (db : Db) (rules : Table CategoryRule)
    (body : TransactionCreate) :
    learnedFrom normalizeDescription (postAll db org rows) org rules body =
      learnedFrom normalizeDescription db org rules body := by
  induction rows generalizing db with
  | nil => rfl
  | cons row rows ih => exact ih (db.post _)

/-- What a batch leaves and answers. -/
theorem createBatch_spec (books : Books) (body : BatchTransactionsRequest) :
    (createBatch normalizeDescription books org body).1 =
        (enterOneByOne normalizeDescription books org body.rows).books ∧
      (createBatch normalizeDescription books org body).2.results.map (·.rowNumber) =
        (accepted books.toDb org body.rows).map (·.rowNumber) ∧
      (createBatch normalizeDescription books org body).2.errors.map (·.rowNumber) =
        (refused books.toDb org body.rows).map (·.rowNumber) := by
  obtain ⟨hdb, herrors, new, hnew, hstored⟩ :=
    @foldl_store org body.rows { db := books.toDb }
  rw [List.nil_append] at hnew
  rw [enterOneByOne, foldl_enter]
  unfold createBatch
  dsimp only
  rw [hdb, hnew, foldl_learnFromResult hstored]
  simp only [learnedFrom_postAll]
  exact ⟨trivial, map_rowNumber_of_stored hstored, herrors⟩

/-- Batch entry equals single entries, for every state and every batch, if and only if no row that
passes its checks, after the rows before it, teaches a rule that cannot be written: one whose token
is longer than 64 characters, the size of its column, and has no rule yet. -/
theorem refinesSingles_iff (books : Books) (org : ℕ) (body : BatchTransactionsRequest) :
    RefinesSingles normalizeDescription books org body ↔
      ∀ row ∈ accepted books.toDb org body.rows,
        Learnable normalizeDescription books.categoryRules org row.transaction := by
  obtain ⟨hbooks, hresults, herrors⟩ :=
    @createBatch_spec normalizeDescription org books body
  have hsingles : enterOneByOne normalizeDescription books org body.rows = _ :=
    foldl_enter body.rows { books := books }
  constructor
  · intro h row hrow
    obtain ⟨v, hv, rfl⟩ := List.mem_map.mp hrow
    -- As many rows succeed one by one as the batch accepts, so all of those can be learned.
    have hlength := congrArg List.length h.results_eq
    rw [hresults, hsingles] at hlength
    simp only [List.nil_append, List.length_map, accepted] at hlength
    have hsub : (checked org books.toDb body.rows).filter
          (Succeeds normalizeDescription books.categoryRules org ·) =
        ((checked org books.toDb body.rows).filter (·.2)).filter fun v =>
          Learnable normalizeDescription books.categoryRules org v.1.transaction := by
      rw [List.filter_filter]
      refine List.filter_congr fun v _ => ?_
      rw [Bool.eq_iff_iff, decide_eq_true_iff, Bool.and_eq_true, decide_eq_true_iff, and_comm]
      rfl
    rw [hsub, eq_comm, List.length_filter_eq_length_iff] at hlength
    exact of_decide_eq_true (hlength v hv)
  · intro h
    have hsucceeds : ∀ v ∈ checked org books.toDb body.rows,
        (Succeeds normalizeDescription books.categoryRules org v ↔ v.2 = true) := fun v hv =>
      ⟨fun hs => hs.1, fun ha =>
        ⟨ha, h v.1 (List.mem_map.mpr ⟨v, List.mem_filter.mpr ⟨hv, ha⟩, rfl⟩)⟩⟩
    have hrows := map_fst_checked books.toDb org body.rows
    have honce : ((createBatch normalizeDescription books org body).2.results.map (·.rowNumber) ++
        (createBatch normalizeDescription books org body).2.errors.map (·.rowNumber)).Perm
          (body.rows.map (·.rowNumber)) := by
      rw [hresults, herrors, ← List.map_append]
      exact (accepted_append_refused_perm _ _ _).map _
    refine ⟨hbooks, ?_, ?_, ?_, ?_, honce, ?_⟩
    · rw [hresults, hsingles, accepted, List.map_map]
      exact congrArg (List.map _) (List.filter_congr fun v hv => by simp [hsucceeds v hv])
    · rw [herrors, hsingles, refused, List.map_map]
      exact congrArg (List.map _) (List.filter_congr fun v hv => by simp [hsucceeds v hv])
    · rw [hresults, accepted]
      nth_rewrite 2 [← hrows]
      exact (List.filter_sublist.map _).map _
    · rw [herrors, refused]
      nth_rewrite 2 [← hrows]
      exact (List.filter_sublist.map _).map _
    · have hlength := honce.length_eq
      rw [List.length_append, List.length_map, List.length_map, List.length_map] at hlength
      exact hlength

end

/-! ### A sample batch -/

/-- The sample ledger with an account, and no rules. -/
def sampleBatchBooks : Books where
  toDb := serveAll Request.step sampleDb [sampleAccount "Checking"]
  categoryRules := .empty
  budgets := .empty
  forecastPlans := .empty
  forecastPlanItems := .empty

/-- A description without a blank, longer than a token may be. -/
def longDescription : Description :=
  ⟨"AAAAAAAAAAAAAAAAAAAAAAAAAAAAAAAAAAAAAAAAAAAAAAAAAAAAAAAAAAAAAAAAA", by decide, by decide⟩

/-- One row, with a description that is its own token. -/
def sampleBatch : BatchTransactionsRequest where
  rows :=
    [{ rowNumber := 1
       transaction :=
        { accountId := 1, categoryId := 1, description := longDescription
          amount := sampleAmount, type := .expense, date := sampleDate
          settledDate_le := noSettledDate_le }
       rowNumber_pos := Nat.one_pos }]
  length_pos := Nat.one_pos
  length_le := by decide
  rowNumbers_nodup := by decide

/-- The batch counts its row as imported. Entered alone the row is stored too, but the call raises,
since its token does not fit. -/
theorem sampleBatch_not_refinesSingles : ¬RefinesSingles id sampleBatchBooks 1 sampleBatch := by
  intro h
  have hbatch : (createBatch id sampleBatchBooks 1 sampleBatch).2.results.map (·.rowNumber) =
      [1] := by
    decide +kernel
  have hsingles : (enterOneByOne id sampleBatchBooks 1 sampleBatch.rows).succeeded = [] := by
    decide +kernel
  have heq := h.results_eq
  rw [hbatch, hsingles] at heq
  cases heq

end Pfv
