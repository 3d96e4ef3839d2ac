import Pfv.Services.ImportParser
import Pfv.Services.Learning

/-!
# The preview of an import

The preview of a bank file (`build_preview` in `backend/app/services/import_service.py`): every
parsed row is compared with the rows of the account, with its linked legs and with the unlinked rows
of the other accounts. Nothing is written.

## Main definitions

* `ImportPreviewRow`, `ImportPreviewResponse`, `PreviewError`.
* `assertCategoriesCoverRowTypes`: the organisation has a category for every type in the file.
* `duplicateId`, `transferMatch`, `previewRow`: what the preview says of a row.
* `buildPreview`.

## Main results

* `previewRow_flagged`: a row the detectors find is flagged.
* `previewRows_isOk`: when the rows of a file are previewed.
-/

namespace Pfv

/-! ### The response -/

/-- The matched leg of a row that duplicates a linked leg. -/
structure DuplicateCandidate where
  id : ℕ
  date : Date
  description : String
  amount : ℤ
  accountId : ℕ
  accountName : String
  existingLegIsImported : Bool
  deriving DecidableEq

inductive TransferMatchConfidence
  | sameDay
  | nearDate
  | multiCandidate
  deriving DecidableEq

/-- A potential other leg, from which the user is to choose. -/
structure TransferCandidate where
  id : ℕ
  date : Date
  description : String
  amount : ℤ
  accountId : ℕ
  accountName : String
  dateDiffDays : ℕ
  confidence : TransferMatchConfidence
  deriving DecidableEq

inductive TransferMatchAction
  | none
  | pairWith
  | suggestPair
  | chooseCandidate
  deriving DecidableEq

/-- What the second detector says of a row. -/
structure TransferMatch where
  action : TransferMatchAction := .none
  confidence : Option TransferMatchConfidence := none
  pairWithId : Option ℕ := none
  candidates : List TransferCandidate := []
  deriving DecidableEq

/-- A single parsed row returned by the preview endpoint. -/
structure ImportPreviewRow where
  rowNumber : ℕ
  date : Date
  description : String
  amount : Decimal
  type : EntryType
  counterparty : Option String
  transactionType : Option String
  isDuplicate : Bool
  duplicateTransactionId : Option ℕ
  suggestedCategoryId : Option ℕ
  suggestionSource : InferSource
  isDuplicateOfLinkedLeg : Bool
  duplicateCandidate : Option DuplicateCandidate
  defaultActionDrop : Bool
  transferMatch : TransferMatch
  fitid : Option String
  bankId : Option String
  accountTypeOfx : Option String
  deriving DecidableEq

/-- Full preview result returned after parsing a bank file. -/
structure ImportPreviewResponse where
  rows : List ImportPreviewRow
  accountId : ℕ
  fileName : String
  totalRows : ℕ
  duplicateCount : ℕ
  autoPairedCount : ℕ
  suggestedPairCount : ℕ
  multiCandidateCount : ℕ
  duplicateOfLinkedCount : ℕ
  sourceFormat : ImportSourceFormat
  deriving DecidableEq

/-- What a preview raises: an error of the services, the missing category types, the `ValueError` of
`min` without rows, the `TypeError` of hashing a signaling NaN, and the `OverflowError` of a date
within three days of an end of the calendar. -/
inductive PreviewError
  | service (e : ServiceError)
  | missingCategoryType (missingTypes : List EntryType) (message : String)
  | emptySequence
  | unhashable
  | dateOverflow
  deriving DecidableEq

/-! ### The category preflight -/

/-- The organisation has a category of the type, or one for both types. -/
def hasCompatible (db : Db) (org : ℕ) (rowType : EntryType) : Bool :=
  db.categories.rows.any fun c =>
    c.orgId = org ∧ (c.type = .both ∨
      c.type = match rowType with
        | .expense => .expense
        | .income => .income)

def missingCategoryMessage : List EntryType → String
  | [.expense] => "This import has expense rows but you have no expense category. " ++
      "Add one to continue."
  | [.income] => "This import has income rows but you have no income category. " ++
      "Add one to continue."
  | _ => "This import needs income and expense categories, but your " ++
      "organization is missing one of each. Add them to continue."

/-- Refuse a file with rows of a type the organisation has no category for. -/
def assertCategoriesCoverRowTypes (db : Db) (org : ℕ) (parsedRows : List ParsedRow) :
    Except PreviewError Unit :=
  let missing := [EntryType.expense, EntryType.income].filter fun t =>
    parsedRows.any (·.type = t) ∧ hasCompatible db org t = false
  raiseIf (missing ≠ []) (.missingCategoryType missing (missingCategoryMessage missing))

/-! ### One row -/

def Db.accountName (db : Db) (accountId : ℕ) : String :=
  ((db.accounts.get? accountId).map (·.name)).getD ""

/-- The row of the account with the date, amount and description of a parsed row. -/
def duplicateId (existing : List Transaction) (date : Date) (amount : ℚ) (description : String) :
    Option ℕ :=
  ((existing.filter fun t =>
    t.date = date ∧ (t.amount : ℚ) = amount * 100 ∧ t.description = description).getLast?).map
      (·.id)

/-- The amount of a row as the queries take it. The amount is hashed first, and the window of three
days is computed before a query with an infinity or a NaN fails. -/
def ParsedRow.queryAmount (row : ParsedRow) : Except PreviewError ℚ := do
  raiseIf (row.amount = .nan true) .unhashable
  raiseIf (¬row.date.HasWindow) .dateOverflow
  match row.amount with
  | .finite amount => pure amount
  | _ => .error (.service (.database "amount"))

/-- The confidence in a candidate for the other leg. -/
def matchConfidence (date : Date) (c : Transaction) : TransferMatchConfidence :=
  if c.date = date then .sameDay else .nearDate

/-- Detector 2: a row of another account that could be the other leg. -/
def transferMatch (db : Db) (date : Date) : List Transaction → TransferMatch
  | [] => {}
  | [c] =>
      { action := if c.date = date then .pairWith else .suggestPair
        confidence := some (matchConfidence date c)
        pairWithId := some c.id }
  | candidates =>
      { action := .chooseCandidate
        confidence := some .multiCandidate
        candidates := candidates.map fun c =>
          { id := c.id, date := c.date, description := c.description, amount := c.amount
            accountId := c.accountId, accountName := db.accountName c.accountId
            dateDiffDays := c.date.daysApart date, confidence := matchConfidence date c } }

/-- What a preview reads before it looks at the rows. -/
structure PreviewContext where
  col : Collation
  db : Db
  rules : Table CategoryRule
  dictionary : List MerchantDictionaryEntry
  org : ℕ
  accountId : ℕ
  currency : String
  existing : List Transaction
  existingFitids : List String

section Rows

variable (normalizeDescription : String → String)

/-- One turn of the loop; `seen` holds the FITIDs of the rows before. Detector 2 is skipped when
Detector 1 fires. -/
def previewRow (ctx : PreviewContext) (seen : List String) (row : ParsedRow) :
    Except PreviewError (ImportPreviewRow × List String) := do
  let amount ← row.queryAmount
  let dupId := duplicateId ctx.existing row.date amount row.description
  let fitid := row.fitid.filter (· ≠ "")
  let suggestion := inferCategory normalizeDescription ctx.rules ctx.dictionary ctx.db.categories
    ctx.org row.description
  let type := row.type.toTransactionType
  let dupLinkedCandidates := findDuplicateOfLinkedLeg ctx.db ctx.org ctx.accountId amount type
    row.date ctx.currency
  let isDupOfLinked := !dupLinkedCandidates.isEmpty
  pure
    ({ rowNumber := row.rowNumber, date := row.date, description := row.description
       amount := row.amount, type := row.type, counterparty := row.counterparty
       transactionType := row.transactionType
       isDuplicate := dupId.isSome || fitid.any fun f => f ∈ ctx.existingFitids ∨ f ∈ seen
       duplicateTransactionId := dupId
       suggestedCategoryId := suggestion.1, suggestionSource := suggestion.2
       isDuplicateOfLinkedLeg := isDupOfLinked
       duplicateCandidate := dupLinkedCandidates.head?.map fun c =>
         { id := c.id, date := c.date, description := c.description, amount := c.amount
           accountId := c.accountId, accountName := ctx.db.accountName c.accountId
           existingLegIsImported := c.isImported }
       defaultActionDrop := isDupOfLinked
       transferMatch :=
         if isDupOfLinked then {}
         else transferMatch ctx.db row.date (findMatchCandidates ctx.col ctx.db ctx.org type amount
           ctx.accountId row.date ctx.currency)
       fitid := row.fitid, bankId := row.bankId, accountTypeOfx := row.accountTypeOfx },
      fitid.toList ++ seen)

/-- The loop over the rows. -/
def previewRows (ctx : PreviewContext) :
    List String → List ParsedRow → Except PreviewError (List ImportPreviewRow)
  | _, [] => pure []
  | seen, row :: rows => do
      let (first, seen) ← previewRow normalizeDescription ctx seen row
      let later ← previewRows ctx seen rows
      pure (first :: later)

/-! ### The preview -/

/-- Build a preview response: flag duplicates and potential transfers. -/
def buildPreview (col : Collation) (db : Db) (rules : Table CategoryRule)
    (dictionary : List MerchantDictionaryEntry) (org accountId : ℕ) (fileName : String)
    (parsedRows : List ParsedRow) (sourceFormat : ImportSourceFormat := .csv) :
    Except PreviewError ImportPreviewResponse := do
  let destinationAccount ← orRaise (db.account? accountId org)
    (.service (.validation "Invalid account"))
  assertCategoriesCoverRowTypes db org parsedRows
  let dates := parsedRows.map (·.date.toOrdinal)
  let minDate ← orRaise dates.min? .emptySequence
  let maxDate ← orRaise dates.max? .emptySequence
  let onAccount := db.transactions.rows.filter fun t => t.orgId = org ∧ t.accountId = accountId
  let previewed ← previewRows normalizeDescription
    { col := col, db := db, rules := rules, dictionary := dictionary, org := org
      accountId := accountId
      currency := destinationAccount.currency
      existing := onAccount.filter fun t => minDate ≤ t.date.toOrdinal ∧ t.date.toOrdinal ≤ maxDate
      existingFitids := onAccount.filterMap (·.fitid) } [] parsedRows
  let matched := fun action => previewed.countP fun r => r.transferMatch.action = action
  pure
    { rows := previewed, accountId := accountId, fileName := fileName
      totalRows := previewed.length
      duplicateCount := previewed.countP (·.isDuplicate)
      autoPairedCount := matched .pairWith
      suggestedPairCount := matched .suggestPair
      multiCandidateCount := matched .chooseCandidate
      duplicateOfLinkedCount := previewed.countP (·.isDuplicateOfLinkedLeg)
      sourceFormat := sourceFormat }

end Rows

/-! ### What a preview flags -/

section Spec

variable {normalizeDescription : String → String} {ctx : PreviewContext}

/-- The preview flags the row as a duplicate. -/
def ImportPreviewRow.Flagged (r : ImportPreviewRow) : Prop :=
  r.isDuplicate = true ∨ r.isDuplicateOfLinkedLeg = true

/-- The detectors find the row in what the preview has read. -/
def PreviewContext.Finds (ctx : PreviewContext) (row : ParsedRow) (amount : ℚ) : Prop :=
  (∃ t ∈ ctx.existing, t.date = row.date ∧ (t.amount : ℚ) = amount * 100 ∧
    t.description = row.description) ∨
  findDuplicateOfLinkedLeg ctx.db ctx.org ctx.accountId amount row.type.toTransactionType row.date
    ctx.currency ≠ []

theorem duplicateId_isSome {existing : List Transaction} {date : Date} {amount : ℚ}
    {description : String} :
    (duplicateId existing date amount description).isSome = true ↔
      ∃ t ∈ existing, t.date = date ∧ (t.amount : ℚ) = amount * 100 ∧
        t.description = description := by
  rw [duplicateId, Option.isSome_map, List.getLast?_isSome, ne_eq, List.filter_eq_nil_iff]
  simp only [decide_eq_true_eq, not_forall, not_not, exists_prop]

theorem ParsedRow.queryAmount_ok {row : ParsedRow} {amount : ℚ}
    (h : row.queryAmount = .ok amount) : row.amount = .finite amount := by
  unfold queryAmount at h
  simp only [↓raiseIf_bind_eq_ok] at h
  obtain ⟨-, -, h⟩ := h
  split at h
  · next q hq => rw [hq, pure_eq_ok.mp h]
  · exact absurd h (by simp)

/-- A row the detectors find is flagged. -/
theorem previewRow_flagged {seen seen' : List String} {row : ParsedRow} {r : ImportPreviewRow}
    {amount : ℚ} (h : previewRow normalizeDescription ctx seen row = .ok (r, seen'))
    (hamount : row.amount = .finite amount) (hfinds : ctx.Finds row amount) : r.Flagged := by
  unfold previewRow at h
  simp only [bind_eq_ok, pure_eq_ok, Prod.mk.injEq] at h
  obtain ⟨q, hq, rfl, -⟩ := h
  obtain rfl : amount = q :=
    Decimal.finite.inj (hamount.symm.trans (ParsedRow.queryAmount_ok hq))
  rcases hfinds with hrow | hleg
  · left
    show ((duplicateId ctx.existing row.date amount row.description).isSome || _) = true
    rw [duplicateId_isSome.mpr hrow, Bool.true_or]
  · right
    show (!List.isEmpty _) = true
    rw [Bool.not_eq_true', List.isEmpty_eq_false_iff]
    exact hleg

/-- The preview of a list of rows shows each row in its place. -/
theorem previewRows_ok {seen : List String} {rows : List ParsedRow} {out : List ImportPreviewRow}
    (h : previewRows normalizeDescription ctx seen rows = .ok out) :
    List.Forall₂ (fun row r => ∃ seen seen',
      previewRow normalizeDescription ctx seen row = .ok (r, seen')) rows out := by
  induction rows generalizing seen out with
  | nil =>
    rw [previewRows, pure_eq_ok] at h
    exact h ▸ .nil
  | cons row rows ih =>
    rw [previewRows] at h
    simp only [bind_eq_ok, Prod.exists, pure_eq_ok] at h
    obtain ⟨r, seen', hrow, later, hlater, rfl⟩ := h
    exact .cons ⟨seen, seen', hrow⟩ (ih hlater)

/-- The rows are previewed when the amount of each can be queried. -/
theorem previewRows_isOk {seen : List String} {rows : List ParsedRow} :
    (∃ out, previewRows normalizeDescription ctx seen rows = .ok out) ↔
      ∀ row ∈ rows, ∃ amount, row.queryAmount = .ok amount := by
  induction rows generalizing seen with
  | nil => exact ⟨fun _ row hrow => absurd hrow (by simp), fun _ => ⟨[], rfl⟩⟩
  | cons row rows ih =>
    simp only [previewRows, previewRow, bind_eq_ok, Prod.exists, pure_eq_ok, List.forall_mem_cons]
    constructor
    · rintro ⟨_, _, _, ⟨amount, hamount, -⟩, later, hlater, -⟩
      exact ⟨⟨amount, hamount⟩, ih.mp ⟨later, hlater⟩⟩
    · rintro ⟨⟨amount, hamount⟩, hrows⟩
      obtain ⟨later, hlater⟩ := ih.mpr hrows
      exact ⟨_, _, _, ⟨amount, hamount, rfl⟩, later, hlater, rfl⟩

end Spec

end Pfv
