import Pfv.Ledger.ImportAccounting
import Pfv.Services.ImportPreview

/-!
# Importing a file twice

A row of a bank file that an import has dealt with is recognised when the file comes again: its own
row is on the account, or the linked leg it was dropped for still is. What the parser leaves of a
description the confirm schema leaves as it is, and nothing an import does later takes a row or a
link away.

## Main definitions

* `Db.Recognises`: the ledger holds a bank row.
* `ParsedRow.EchoedBy`: the client confirms the row as it was previewed.

## Main results

* `Db.Recognises.grows`: a bank row stays recognised when the ledger grows.
* `importRow_recognised`: a row that goes through is recognised.
* `reimport_flagged`: the preview of a file after its import.
-/

namespace Pfv

/-! ### Recognised rows -/

/-- The ledger holds a bank row: a row of the account has its date, amount and description, or it
matches a linked leg of the account. -/
def Db.Recognises (db : Db) (org accountId : ℕ) (currency : String) (date : Date) (amount : ℚ)
    (description : String) (type : EntryType) : Prop :=
  (∃ i t, db.transactions.get? i = some t ∧ t.orgId = org ∧ t.accountId = accountId ∧
    t.date = date ∧ (t.amount : ℚ) = amount * 100 ∧ t.description = description) ∨
  findDuplicateOfLinkedLeg db org accountId amount type.toTransactionType date currency ≠ []

theorem findDuplicateOfLinkedLeg_ne_nil {db : Db} {org accountId : ℕ} {amount : ℚ}
    {type : TransactionType} {date : Date} {currency : String} :
    findDuplicateOfLinkedLeg db org accountId amount type date currency ≠ [] ↔
      ∃ i t, db.transactions.get? i = some t ∧ t.orgId = org ∧ t.accountId = accountId ∧
        t.type = type ∧ (t.amount : ℚ) = amount * 100 ∧ t.linkedTransactionId.isSome ∧
        t.isManualAdjustment = false ∧ t.date.daysApart date ≤ 3 ∧
        db.currencyOf t.accountId = some currency := by
  have hnil : ∀ l : List Transaction, (l.insertionSort (closerTo date)).take 10 ≠ [] ↔ l ≠ [] := by
    intro l
    rw [ne_eq, ne_eq, List.take_eq_nil_iff, ← List.length_eq_zero_iff, ← List.length_eq_zero_iff,
      List.length_insertionSort]
    simp
  rw [findDuplicateOfLinkedLeg, hnil, ne_eq, List.filter_eq_nil_iff]
  simp only [decide_eq_true_eq, not_forall, not_not, exists_prop]
  constructor
  · rintro ⟨t, ht, hmatch⟩
    exact ⟨t.id, t, Table.get?_of_mem ht, hmatch⟩
  · rintro ⟨i, t, ht, hmatch⟩
    exact ⟨t, Table.get?_mem ht, hmatch⟩

section Growth

variable {P : Transaction → Prop} {db db' : Db} {org : ℕ}

/-- Adding to the ledger keeps every link. -/
theorem Db.Grows.keepsLink (h : Db.Grows P db db') {j : ℕ} {t : Transaction}
    (ht : db.transactions.get? j = some t) (hlinked : t.linkedTransactionId.isSome) :
    ∃ t', db'.transactions.get? j = some t' ∧ t.SameEntry t' ∧
      t'.linkedTransactionId.isSome := by
  cases h with
  | openAccount | addCategory | setTemplates => exact ⟨t, ht, rfl, hlinked⟩
  | post u => exact ⟨t, Table.get?_insert_of_some u ht, rfl, hlinked⟩
  | link e i cat h =>
    rw [Db.get?_linkRows h]
    split_ifs with he hi
    · rw [he, h.expense_mem, Option.some_inj] at ht
      exact ⟨_, rfl, ht ▸ rfl, rfl⟩
    · rw [hi, h.income_mem, Option.some_inj] at ht
      exact ⟨_, rfl, ht ▸ rfl, rfl⟩
    · exact ⟨t, ht, rfl, hlinked⟩
  | retemplate f hf h =>
    have hft := h t (Table.get?_mem ht)
    refine ⟨f t, by rw [Table.get?_mapRows, ht, Option.map_some], ?_, ?_⟩
    · rw [hft]
      rfl
    · rw [hft]
      exact hlinked
  | openBatch ids org b hf =>
    refine ⟨t.assignBatch ids org db.importBatches.next, by
      rw [Table.get?_mapRows, ht, Option.map_some], ?_, ?_⟩
    · rw [Db.assignBatch_eq]
      rfl
    · rw [Db.assignBatch_eq]
      exact hlinked

/-- A bank row stays recognised when the ledger grows. -/
theorem Db.Recognises.grows_one {accountId : ℕ} {currency : String} {date : Date} {amount : ℚ}
    {description : String} {type : EntryType} (hgrow : Db.Grows P db db')
    (h : db.Recognises org accountId currency date amount description type) :
    db'.Recognises org accountId currency date amount description type := by
  rcases h with ⟨i, t, ht, hmatch⟩ | hleg
  · obtain ⟨t', ht', hsame⟩ := hgrow.keepsRow ht
    exact .inl ⟨i, t', ht', by rw [hsame]; exact hmatch⟩
  · right
    obtain ⟨i, t, ht, horg, hacct, htype, hamount, hlink, hmanual, hdate, hcurrency⟩ :=
      findDuplicateOfLinkedLeg_ne_nil.mp hleg
    obtain ⟨t', ht', hsame, hlink'⟩ := hgrow.keepsLink ht hlink
    rw [findDuplicateOfLinkedLeg_ne_nil]
    refine ⟨i, t', ht', ?_⟩
    rw [hsame] at hlink' ⊢
    have hsome : (db.accounts.get? t.accountId).isSome := by
      rw [Db.currencyOf, Option.map_eq_some_iff] at hcurrency
      obtain ⟨acct, hget, -⟩ := hcurrency
      exact Option.isSome_of_eq_some hget
    exact ⟨horg, hacct, htype, hamount, hlink', hmanual, hdate,
      (hgrow.keepsAccounts.currencyOf hsome).trans hcurrency⟩

theorem Db.Recognises.grows {accountId : ℕ} {currency : String} {date : Date} {amount : ℚ}
    {description : String} {type : EntryType} (hgrow : db.GrowsMany P db')
    (h : db.Recognises org accountId currency date amount description type) :
    db'.Recognises org accountId currency date amount description type :=
  hgrow.induct (fun h hgrow => Db.Recognises.grows_one hgrow h) h

/-- Adding to the ledger takes no category away. -/
theorem Db.Grows.hasCompatible {rowType : EntryType} (hgrow : Db.Grows P db db')
    (h : hasCompatible db org rowType = true) : hasCompatible db' org rowType = true := by
  cases hgrow with
  | addCategory c =>
    unfold Pfv.hasCompatible at h ⊢
    rw [List.any_eq_true] at h ⊢
    obtain ⟨cat, hcat, hmatch⟩ := h
    exact ⟨cat, List.mem_append_left _ hcat, hmatch⟩
  | openAccount | setTemplates | post | link | retemplate | openBatch => exact h

end Growth

/-! ### Rows of an import -/

section Import

variable {db db' : Db} {org : ℕ} {body : ImportConfirmRequest} {currency : String}
  {row : ImportConfirmRow}

theorem Amount.ofDecimal_cents {q : ℚ} {a : Amount} (h : Amount.ofDecimal q = some a) :
    (a.cents : ℚ) = q * 100 := by
  unfold Amount.ofDecimal at h
  split_ifs at h with hq
  rw [← Option.some_inj.mp h]
  exact Rat.coe_int_num_of_den_eq_one hq.1

theorem Description.ofRaw_text {raw : String} {d : Description}
    (h : Description.ofRaw raw = some d) : d.text = strip raw := by
  unfold Description.ofRaw at h
  split_ifs at h
  rw [← Option.some_inj.mp h]

/-- A bank row is confirmed with a description the schema leaves as it is. -/
def ImportConfirmRow.Stripped (row : ImportConfirmRow) : Prop :=
  strip row.description = row.description

/-- The ledger holds the row of a confirm request. -/
def ImportConfirmRow.RecognisedIn (row : ImportConfirmRow) (db : Db) (org accountId : ℕ)
    (currency : String) : Prop :=
  db.Recognises org accountId currency row.date row.amount row.description row.type

/-- The leg of a row that comes from the bank file has the date, the amount and the description of
the row. -/
theorem importLeg_recognised {tx : Transaction} (hstrip : row.Stripped)
    (h : importLeg db org body row = .ok (db', tx)) :
    row.RecognisedIn db' org body.accountId currency := by
  unfold importLeg at h
  simp only [bind_eq_ok] at h
  obtain ⟨txBody, hbody, hcreate⟩ := h
  obtain ⟨-, rfl, -⟩ := createTransactionNoCommit_ok hcreate
  simp only [ImportConfirmRow.toCreate, bind_eq_ok, orRaise_eq_ok, pure_eq_ok] at hbody
  obtain ⟨description, hdescription, amount, hamount, rfl⟩ := hbody
  refine .inl ⟨_, _, Db.get?_post_next _ _, rfl, rfl, rfl, Amount.ofDecimal_cents hamount, ?_⟩
  exact (Description.ofRaw_text hdescription).trans hstrip

theorem importLeg_getNew {tx : Transaction} (h : importLeg db org body row = .ok (db', tx)) :
    db'.transactions.get? tx.id = some tx := by
  obtain ⟨txBody, -, -, -, rfl, rfl⟩ := importLeg_ok h
  exact Db.get?_post_next _ _

/-- A row that goes through drops a duplicate of a linked leg, or stores its leg and goes on adding
to the ledger. -/
theorem importRow_stages {loaded loaded' : Bool} {id : Option ℕ}
    (h : importRow db org body currency row loaded = .ok (db', id, loaded')) :
    (db' = db ∧ findDuplicateOfLinkedLeg db org body.accountId row.amount
      row.type.toTransactionType row.date currency ≠ []) ∨
    ∃ db₁ tx, importLeg db org body row = .ok (db₁, tx) ∧
      db₁.GrowsMany (fun _ => True) db' := by
  unfold importRow at h
  split at h
  · simp only [importCreate, bind_eq_ok, flushingLeg_eq_ok, Prod.exists, pure_eq_ok,
      Prod.mk.injEq] at h
    obtain ⟨_, tx, hleg, rfl, -⟩ := h
    exact .inr ⟨_, tx, hleg, .refl⟩
  · simp only [importPairWithExisting, bind_eq_ok, flushingLeg_eq_ok,
      leavingLoaded_eq_ok, Prod.exists, pure_eq_ok, Prod.mk.injEq] at h
    obtain ⟨_, -, _, tx, hleg, _, hpair, rfl, -⟩ := h
    exact .inr ⟨_, tx, hleg, importPair_grows (importLeg_getNew hleg) hpair⟩
  · simp only [importDropAsDuplicate, ↓raiseIf_bind_eq_ok, bind_eq_ok, pure_eq_ok,
      Prod.mk.injEq] at h
    obtain ⟨duplicateId, -, -, -, hmem, rfl, -⟩ := h
    refine .inl ⟨rfl, fun hnil => hmem ?_⟩
    rw [hnil]
    simp
  · unfold importCreateTransferPair at h
    simp only [↓unit_bind_eq_ok, bind_eq_ok, flushingLeg_eq_ok,
      leavingLoaded_eq_ok, Prod.exists, pure_eq_ok, Prod.mk.injEq] at h
    obtain ⟨_, -, _, -, -, -, -, -, _, tx, hleg, _, hpair, rfl, -⟩ := h
    exact .inr ⟨_, tx, hleg,
      importPartnerLeg_grows (fun _ _ _ => trivial) (importLeg_getNew hleg) hpair⟩

/-- A row that goes through is recognised afterwards, whatever its action. -/
theorem importRow_recognised {loaded loaded' : Bool} {id : Option ℕ} (hstrip : row.Stripped)
    (h : importRow db org body currency row loaded = .ok (db', id, loaded')) :
    row.RecognisedIn db' org body.accountId currency := by
  rcases importRow_stages h with ⟨rfl, hdup⟩ | ⟨db₁, tx, hleg, hgrow⟩
  · exact .inr hdup
  · exact (importLeg_recognised hstrip hleg).grows hgrow

/-- The loop over the rows adds to the ledger. -/
theorem foldl_importStep_grows (s : ImportState) (rows : List ImportConfirmRow) :
    s.db.GrowsMany (fun _ => True) (rows.foldl (importStep org body currency) s).db := by
  induction rows generalizing s with
  | nil => exact .refl
  | cons row rows ih =>
    refine Relation.ReflTransGen.trans ?_ (ih _)
    rcases @importStep_cases org body currency s row with
      ⟨-, -, hstep⟩ | ⟨e, loaded, -, -, -, hstep⟩ | ⟨d, id, loaded, -, hrow, -, hstep⟩
    · rw [hstep]
    · rw [hstep]
    · rw [hstep, ImportState.count_db]
      rcases importRow_ok (P := fun _ => True) (fun _ _ _ _ _ => trivial) hrow with
        ⟨-, rfl⟩ | ⟨txBody, fitid, -, hacct, -, -, hgrow⟩
      · exact .refl
      · exact .head (.post s.db _ (txBody.rowOk hacct _ _ _) (txBody.isNew_row _ _ _ _) trivial)
          hgrow

/-- Every row that goes through is recognised when the loop has ended. -/
theorem foldl_importStep_recognised {rows : List ImportConfirmRow}
    (hstrip : ∀ row ∈ rows, row.Stripped) (s : ImportState) {k : ℕ} {action : ImportAction}
    (h : (outcomes org body currency s rows)[k]? = some (.done action)) :
    ∃ row, rows[k]? = some row ∧
      row.RecognisedIn (rows.foldl (importStep org body currency) s).db org body.accountId
        currency := by
  induction rows generalizing s k with
  | nil => simp [outcomes] at h
  | cons row rows ih =>
    rw [List.forall_mem_cons] at hstrip
    rw [outcomes] at h
    cases k with
    | zero =>
      rw [List.getElem?_cons_zero, Option.some_inj] at h
      refine ⟨row, rfl, Db.Recognises.grows (foldl_importStep_grows _ rows) ?_⟩
      rcases @importStep_cases org body currency s row with
        ⟨-, hout, -⟩ | ⟨e, loaded, -, -, hout, -⟩ | ⟨d, id, loaded, -, hrow, -, hstep⟩
      · exact absurd (hout.symm.trans h) (by simp)
      · exact absurd (hout.symm.trans h) (by simp)
      · rw [hstep, ImportState.count_db]
        exact importRow_recognised hstrip.1 hrow
    | succ k =>
      rw [List.getElem?_cons_succ] at h
      exact ih hstrip.2 _ h

/-- After an import its batch has opened on top of the rows the loop has stored. -/
theorem executeImport_recognised {account : Account} {userId : Option ℕ}
    {response : ImportConfirmResponse} (hacct : db.account? body.accountId org = some account)
    (hstrip : ∀ row ∈ body.rows, row.Stripped)
    (h : executeImport db org body userId = .ok (db', response)) {k : ℕ} {action : ImportAction}
    (hdone : (outcomes org body account.currency { db := db } body.rows)[k]? =
      some (RowOutcome.done action)) :
    ∃ row : ImportConfirmRow, body.rows[k]? = some row ∧
      row.RecognisedIn db' org body.accountId account.currency := by
  obtain ⟨row, hrow, hrecognised⟩ := foldl_importStep_recognised hstrip _ hdone
  refine ⟨row, hrow, ?_⟩
  unfold executeImport at h
  simp only [bind_eq_ok, orRaise_eq_ok, Prod.exists, pure_eq_ok, Prod.mk.injEq] at h
  obtain ⟨acct, hacct', db₁, importId, hbatch, rfl, -⟩ := h
  obtain rfl : account = acct := Option.some_inj.mp (hacct.symm.trans hacct')
  have hstart : ImportLoop (fun _ => True) db org { db := db } :=
    ⟨.refl, rfl, List.nodup_nil, by simp⟩
  have hloop : ImportLoop (fun _ => True) db org
      (body.rows.foldl (importStep org body account.currency) { db := db }) :=
    ImportLoop.foldl (fun _ _ _ _ _ => trivial) body.rows (fun _ hrow => hrow) hstart
  unfold importBatchOf at hbatch
  split at hbatch
  · rw [pure_eq_ok, Prod.mk.injEq] at hbatch
    exact hbatch.1 ▸ hrecognised
  · split_ifs at hbatch
    · rw [pure_eq_ok, Prod.mk.injEq] at hbatch
      exact hbatch.1 ▸ hrecognised
    · simp only [bind_eq_ok, Prod.exists, pure_eq_ok, Prod.mk.injEq] at hbatch
      obtain ⟨_, batchId, hopen, rfl, -⟩ := hbatch
      exact hrecognised.grows (createImportBatch_grows (P := fun _ => True) hloop.imported hopen)

end Import

/-! ### The preview of a file after its import -/

/-- The client confirms the row as it was previewed. -/
def ParsedRow.EchoedBy (parsed : ParsedRow) (row : ImportConfirmRow) : Prop :=
  row.date = parsed.date ∧ row.description = parsed.description ∧
    parsed.amount = .finite row.amount ∧ row.type = parsed.type

section Preview

variable {normalizeDescription : String → String} {col : Collation} {rules : Table CategoryRule}
  {dictionary : List MerchantDictionaryEntry} {db : Db} {org accountId : ℕ} {fileName : String}
  {parsed : List ParsedRow}

/-- A preview shows each row in its place, and flags it when the ledger recognises it. -/
theorem buildPreview_ok {account : Account} {preview : ImportPreviewResponse}
    (hacct : db.account? accountId org = some account)
    (h : buildPreview normalizeDescription col db rules dictionary org accountId fileName parsed =
      .ok preview) :
    List.Forall₂ (fun (row : ParsedRow) r => ∀ amount, row.amount = .finite amount →
      db.Recognises org accountId account.currency row.date amount row.description row.type →
      r.Flagged) parsed preview.rows := by
  unfold buildPreview at h
  simp only [↓unit_bind_eq_ok, bind_eq_ok, orRaise_eq_ok, pure_eq_ok] at h
  obtain ⟨acct, hacct', -, minDate, hmin, maxDate, hmax, previewed, hrows, rfl⟩ := h
  obtain rfl : account = acct := Option.some_inj.mp (hacct.symm.trans hacct')
  rw [List.min?_eq_some_iff] at hmin
  rw [List.max?_eq_some_iff] at hmax
  have hshown := previewRows_ok hrows
  rw [List.forall₂_iff_zip] at hshown ⊢
  refine ⟨hshown.1, fun {row r} hmem amount hamount hrecognised => ?_⟩
  obtain ⟨seen, seen', hrow⟩ := hshown.2 hmem
  have hdate : row.date.toOrdinal ∈ parsed.map (·.date.toOrdinal) :=
    List.mem_map_of_mem (List.of_mem_zip hmem).1
  refine previewRow_flagged hrow hamount ?_
  rcases hrecognised with ⟨i, t, ht, horg, hacc, hdate', hmatch⟩ | hleg
  · left
    -- The row lies between the first and the last date of the file, since its own date does.
    refine ⟨t, ?_, hdate', hmatch⟩
    simp only [List.mem_filter, decide_eq_true_eq]
    exact ⟨⟨Table.get?_mem ht, horg, hacc⟩, hdate' ▸ hmin.2 _ hdate, hdate' ▸ hmax.2 _ hdate⟩
  · exact .inr hleg

theorem assertCategoriesCoverRowTypes_eq_ok {x : Unit} :
    assertCategoriesCoverRowTypes db org parsed = .ok x ↔
      ∀ row ∈ parsed, hasCompatible db org row.type = true := by
  unfold assertCategoriesCoverRowTypes
  rw [raiseIf_eq_ok, ne_eq, not_not, List.filter_eq_nil_iff]
  simp only [decide_eq_true_eq, List.any_eq_true, not_and, Bool.not_eq_false,
    forall_exists_index, and_imp]
  constructor
  · intro h row hrow
    exact h row.type (by cases row.type <;> simp) row hrow rfl
  · rintro h t - row hrow rfl
    exact h row hrow

/-- When a preview returns: the account exists, the file has rows, the organisation has a category
for each type in it, and the amount of every row can be queried. -/
theorem buildPreview_isOk :
    (∃ preview, buildPreview normalizeDescription col db rules dictionary org accountId fileName
      parsed = .ok preview) ↔
      (∃ account, db.account? accountId org = some account) ∧ parsed ≠ [] ∧
        (∀ row ∈ parsed, hasCompatible db org row.type = true) ∧
        ∀ row ∈ parsed, ∃ amount, row.queryAmount = .ok amount := by
  unfold buildPreview
  simp only [↓unit_bind_eq_ok, bind_eq_ok, orRaise_eq_ok, pure_eq_ok,
    assertCategoriesCoverRowTypes_eq_ok]
  constructor
  · rintro ⟨_, account, hacct, hcover, minDate, hmin, _, -, _, hrows, -⟩
    refine ⟨⟨account, hacct⟩, ?_, hcover, previewRows_isOk.mp ⟨_, hrows⟩⟩
    rintro rfl
    simp at hmin
  · rintro ⟨⟨account, hacct⟩, hne, hcover, hamounts⟩
    obtain ⟨minDate, hmin⟩ := Option.isSome_iff_exists.mp
      (List.isSome_min?_of_ne_nil (l := parsed.map (·.date.toOrdinal)) (by simpa using hne))
    obtain ⟨maxDate, hmax⟩ := Option.isSome_iff_exists.mp
      (List.isSome_max?_of_ne_nil (l := parsed.map (·.date.toOrdinal)) (by simpa using hne))
    obtain ⟨out, hout⟩ := previewRows_isOk.mpr hamounts
    exact ⟨_, account, hacct, hcover, minDate, hmin, maxDate, hmax, out, hout, rfl⟩

end Preview

theorem getElem?_of_forall₂ {α β : Type} {R : α → β → Prop} {l : List α} {l' : List β}
    (h : List.Forall₂ R l l') {k : ℕ} {b : β} (hb : l'[k]? = some b) :
    ∃ a, l[k]? = some a ∧ R a b := by
  induction h generalizing k with
  | nil => simp at hb
  | @cons a b' l l' hR _ ih =>
    cases k with
    | zero => exact ⟨a, rfl, by simpa using (Option.some_inj.mp hb) ▸ hR⟩
    | succ k => exact ih hb

/-- After the rows of a bank file were confirmed as they were previewed, the preview of the file
returns whenever it did before, and flags every row that went through, whatever the actions, the
categories and the other rows. -/
theorem reimport_flagged (normalizeDescription : String → String) (col : Collation)
    (rules rules' : Table CategoryRule) (dictionary dictionary' : List MerchantDictionaryEntry)
    {content fileName : String} {parsed : List ParsedRow} {db db' : Db} {org : ℕ}
    {body : ImportConfirmRequest} {userId : Option ℕ} {response : ImportConfirmResponse}
    {account : Account} (hparsed : parseCsv content = .ok parsed)
    (hecho : List.Forall₂ ParsedRow.EchoedBy parsed body.rows)
    (hacct : db.account? body.accountId org = some account)
    (himport : executeImport db org body userId = .ok (db', response)) :
    ((∃ preview, buildPreview normalizeDescription col db rules dictionary org body.accountId
        fileName parsed = .ok preview) →
      ∃ preview, buildPreview normalizeDescription col db' rules' dictionary' org body.accountId
        fileName parsed = .ok preview) ∧
    ∀ preview : ImportPreviewResponse,
      buildPreview normalizeDescription col db' rules' dictionary' org body.accountId fileName
        parsed = .ok preview →
      ∀ (k : ℕ) (action : ImportAction),
        (outcomes org body account.currency { db := db } body.rows)[k]? = some (.done action) →
      ∃ r : ImportPreviewRow, preview.rows[k]? = some r ∧ r.Flagged := by
  have hgrow : db.GrowsMany (fun _ => True) db' :=
    executeImport_grows (fun _ _ _ _ _ => trivial) himport
  obtain ⟨hget, horg⟩ := Db.account?_eq_some.mp hacct
  obtain ⟨account', hget', horg', hcurrency, -⟩ := hgrow.keepsAccounts _ _ hget
  have hacct' : db'.account? body.accountId org = some account' :=
    Db.account?_eq_some.mpr ⟨hget', horg'.trans horg⟩
  constructor
  · rw [buildPreview_isOk, buildPreview_isOk]
    rintro ⟨-, hne, hcover, hamounts⟩
    exact ⟨⟨account', hacct'⟩, hne, fun row hrow =>
      hgrow.induct (fun h hgrow => hgrow.hasCompatible h) (hcover row hrow), hamounts⟩
  · intro preview hpreview k action hdone
    have hstrip : ∀ row ∈ body.rows, row.Stripped := by
      intro row hrow
      obtain ⟨j, hj⟩ := List.mem_iff_getElem?.mp hrow
      obtain ⟨p, hp, -, hdescription, -⟩ := getElem?_of_forall₂ hecho hj
      rw [ImportConfirmRow.Stripped, hdescription]
      exact ((parseCsv_ok hparsed).2 j p hp).stripped
    obtain ⟨row, hrow, hrecognised⟩ := executeImport_recognised hacct hstrip himport hdone
    obtain ⟨p, hp, hdate, hdescription, hamount, htype⟩ := getElem?_of_forall₂ hecho hrow
    obtain ⟨r, hr, hflag⟩ := getElem?_of_forall₂ (buildPreview_ok hacct' hpreview).flip hp
    refine ⟨r, hr, hflag row.amount hamount ?_⟩
    rw [hcurrency, ← hdate, ← hdescription, ← htype]
    exact hrecognised

/-! ### Sample files -/

/-- The only category of the organisation is for expenses. -/
def sampleExpenseOnly : Db :=
  { sampleTwoAccounts.toDb with
    categories := Table.empty.insert { orgId := 1, name := "Food", type := .expense } }

def sampleFile : String :=
  "Date,Name / Description,Debit/credit,Amount (EUR)\n20260406,Coffee,Debit,\"3,50\"\n" ++
    "20260407,Refund,Credit,2\n"

/-- The rows of the file as the client confirms them. -/
def sampleEchoedRows : List ImportConfirmRow :=
  [{ rowNumber := 1, date := .of 2026 4 6
     description := "Coffee", amount := 7 / 2, type := .expense, amount_pos := by norm_num },
   { rowNumber := 2, date := .of 2026 4 7
     description := "Refund", amount := 2, type := .income, amount_pos := by norm_num }]

/-- What the parser makes of the file. -/
def sampleParsedRows : List ParsedRow :=
  sampleEchoedRows.map fun row =>
    { rowNumber := row.rowNumber, date := row.date, description := row.description
      amount := .finite row.amount, type := row.type }

theorem sampleFile_parsed : parseCsv sampleFile = .ok sampleParsedRows := by decide +kernel

/-- Where both rows go through, the file comes back with both rows flagged. -/
theorem reimport_flagged_of_sampleFile :
    ∃ (db' : Db) (preview : ImportPreviewResponse),
      (executeImport sampleTwoAccounts.toDb 1 (sampleConfirm sampleEchoedRows) (some 1)).map
        (·.1.transactions.rows.length) = .ok 2 ∧
      buildPreview (fun s => s) caseInsensitive db' .empty [] 1 1 "bank.csv" sampleParsedRows =
        .ok preview ∧
      ∀ k < 2, ∃ r : ImportPreviewRow, preview.rows[k]? = some r ∧ r.Flagged := by
  obtain ⟨⟨db', response⟩, h⟩ := exists_of_isOk (x := executeImport sampleTwoAccounts.toDb 1
    (sampleConfirm sampleEchoedRows) (some 1)) (by decide +kernel)
  obtain ⟨account, hacct⟩ : ∃ account, sampleTwoAccounts.account? 1 1 = some account :=
    Option.isSome_iff_exists.mp (by decide +kernel)
  have hecho : List.Forall₂ ParsedRow.EchoedBy sampleParsedRows sampleEchoedRows :=
    .cons ⟨rfl, rfl, rfl, rfl⟩ (.cons ⟨rfl, rfl, rfl, rfl⟩ .nil)
  obtain ⟨hreturns, hflags⟩ := reimport_flagged (fun s => s) caseInsensitive .empty .empty [] []
    sampleFile_parsed hecho hacct h
  have hfirst :
      (buildPreview (fun s => s) caseInsensitive sampleTwoAccounts.toDb .empty [] 1 1 "bank.csv"
      sampleParsedRows).isOk = true := by decide +kernel
  obtain ⟨preview, hpreview⟩ := hreturns (exists_of_isOk hfirst)
  refine ⟨db', preview,
    by decide +kernel, hpreview, fun k hk => hflags preview hpreview k .create ?_⟩
  have hout : (sampleTwoAccounts.account? 1 1).map (fun a => ((outcomes 1
      (sampleConfirm sampleEchoedRows) a.currency { db := sampleTwoAccounts.toDb }
        sampleEchoedRows))) = some [.done .create, .done .create] := by decide +kernel
  rw [hacct] at hout
  have hall : outcomes 1 (sampleConfirm sampleEchoedRows) account.currency
      { db := sampleTwoAccounts.toDb } (sampleConfirm sampleEchoedRows).rows =
        [.done .create, .done .create] := Option.some_inj.mp hout
  rw [hall]
  interval_cases k <;> rfl

/-- The first row of the file goes through and the second fails for want of a category; the preview
of the file then refuses it and flags neither. -/
theorem not_reimport_flagged_of_missing :
    ∃ (parsed : List ParsedRow) (db' : Db) (response : ImportConfirmResponse) (account : Account),
      parseCsv sampleFile = .ok parsed ∧
      List.Forall₂ ParsedRow.EchoedBy parsed (sampleConfirm sampleEchoedRows).rows ∧
      sampleExpenseOnly.account? 1 1 = some account ∧
      executeImport sampleExpenseOnly 1 (sampleConfirm sampleEchoedRows) (some 1) =
        .ok (db', response) ∧
      (outcomes 1 (sampleConfirm sampleEchoedRows) account.currency { db := sampleExpenseOnly }
        sampleEchoedRows)[0]? = some (.done .create) ∧
      ∀ preview, buildPreview (fun s => s) caseInsensitive db' .empty [] 1 1 "bank.csv" parsed ≠
        .ok preview := by
  obtain ⟨⟨db', response⟩, h⟩ := exists_of_isOk (x := executeImport sampleExpenseOnly 1
    (sampleConfirm sampleEchoedRows) (some 1)) (by decide +kernel)
  obtain ⟨account, hacct⟩ : ∃ account, sampleExpenseOnly.account? 1 1 = some account :=
    Option.isSome_iff_exists.mp (by decide +kernel)
  refine ⟨sampleParsedRows, db', response, account, sampleFile_parsed, ?_, hacct, h, ?_, ?_⟩
  · exact .cons ⟨rfl, rfl, rfl, rfl⟩ (.cons ⟨rfl, rfl, rfl, rfl⟩ .nil)
  · have hout : (sampleExpenseOnly.account? 1 1).map (fun a =>
        (outcomes 1 (sampleConfirm sampleEchoedRows) a.currency { db := sampleExpenseOnly }
          sampleEchoedRows)[0]?) = some (some (.done .create)) := by decide +kernel
    rw [hacct] at hout
    exact Option.some_inj.mp hout
  · intro preview hpreview
    have hcover := (buildPreview_isOk.mp ⟨preview, hpreview⟩).2.2.1
    have hmissing : (executeImport sampleExpenseOnly 1 (sampleConfirm sampleEchoedRows)
        (some 1)).map (fun p => hasCompatible p.1 1 .income) = .ok false := by decide +kernel
    rw [h] at hmissing
    have hrefund := hcover (sampleParsedRows.get ⟨1, by decide⟩) (List.get_mem _ _)
    exact absurd (hrefund.symm.trans (Except.ok.inj hmissing)) (by simp)

end Pfv
