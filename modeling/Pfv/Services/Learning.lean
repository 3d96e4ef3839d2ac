import Pfv.Models.Books
import Pfv.Services.Import

/-!
# Learning from an import

The rules an organisation learns from the categories its users choose
(`backend/app/services/category_rules_service.py`) and the confirm step of an import with what it
learns row by row (`backend/app/services/import_service.py`). Only a plainly created row teaches,
after its savepoint was released and in a savepoint of its own; a rule that cannot be written is
rolled back and costs nothing else.

The normalization of bank descriptions is a parameter. Votes for the shared dictionary and telemetry
are left out.

## Main definitions

* `learnFromChoice`: write the choice of a category into the rules.
* `inferCategory`: the category suggested for a description.
* `RowOutcome`, `rowOutcome`: what a row of an import ended in.
* `Books.importStep`, `Books.executeImport`: the loop over the rows and the import, with learning.

## Main results

* `Books.executeImport_ledger`: learning neither helps nor hinders the import of a ledger.
-/

namespace Pfv

/-! ### Rules -/

/-- The rule of an organisation for a token. -/
def ruleFor (rules : Table CategoryRule) (org : ℕ) (token : String) : Option CategoryRule :=
  rules.rows.find? fun r => r.orgId = org ∧ r.normalizedToken = token

/-- Write the choice of a category into the rules: the most recent choice wins. The database refuses
a category that does not exist and a token longer than its column. -/
def learnFromChoice (normalizeDescription : String → String) (db : Db) (rules : Table CategoryRule)
    (org : ℕ) (description : String) (categoryId : ℕ) (source : RuleSource) :
    Except ServiceError (Table CategoryRule) :=
  let token := normalizeDescription description
  let rawDescriptionSeen := String.ofList (description.toList.take 255)
  if token = "" then pure rules
  else do
    raiseIf ((db.categories.get? categoryId).isNone = true) (.database "category_id")
    match ruleFor rules org token with
    | none => do
        raiseIf (64 < token.length) (.database "normalized_token")
        pure (rules.insert
          { orgId := org, categoryId := categoryId, normalizedToken := token
            rawDescriptionSeen := rawDescriptionSeen, matchCount := 1, source := source })
    | some rule =>
        pure (rules.put
          { rule with
            categoryId := categoryId, source := source
            rawDescriptionSeen := rawDescriptionSeen, matchCount := rule.matchCount + 1 })

/-! ### Suggestions -/

/-- A token of the dictionary that all organisations share. -/
structure MerchantDictionaryEntry where
  normalizedToken : String
  categorySlug : String
  deriving DecidableEq

inductive InferSource
  | orgRule
  | sharedDictionary
  | default
  deriving DecidableEq

/-- The category for a description: the one that the organisation's own rule for its token names,
else the system category with the slug of the shared dictionary, else none. -/
def inferCategory (normalizeDescription : String → String) (rules : Table CategoryRule)
    (dictionary : List MerchantDictionaryEntry) (categories : Table Category) (org : ℕ)
    (description : String) : Option ℕ × InferSource :=
  let token := normalizeDescription description
  if token = "" then (none, .default)
  else
    match ruleFor rules org token with
    | some rule => (some rule.categoryId, .orgRule)
    | none =>
        match dictionary.find? (·.normalizedToken = token) with
        | none => (none, .default)
        | some entry =>
            if entry.categorySlug = "" then (none, .default)
            else
              match categories.rows.find? fun c =>
                  c.orgId = org ∧ c.slug = some entry.categorySlug ∧ c.isSystem = true with
              | some cat => (some cat.id, .sharedDictionary)
              | none => (none, .default)

/-! ### Rows -/

/-- What a row of an import ended in. -/
inductive RowOutcome
  | skipped
  | failed (error : ServiceError)
  | done (action : ImportAction)
  deriving DecidableEq

def rowOutcome (org : ℕ) (body : ImportConfirmRequest) (currency : String) (s : ImportState)
    (row : ImportConfirmRow) : RowOutcome :=
  if row.skip then .skipped
  else
    match importRow s.db org body currency row s.destinationLoaded with
    | .error (e, _) => .failed e
    | .ok _ => .done row.action

/-- The source of the rule a row teaches: the user accepted the suggestion or overrode it. -/
def ImportConfirmRow.learningSource (row : ImportConfirmRow) : RuleSource :=
  if row.suggestedCategoryId.isSome ∧ row.suggestedCategoryId = row.categoryId then .userPick
  else .userEdit

/-- The rules after a created row taught its category. The row it stored is no leg of a transfer. -/
def learnFromRow (normalizeDescription : String → String) (db : Db) (rules : Table CategoryRule)
    (org : ℕ) (row : ImportConfirmRow) : Table CategoryRule :=
  match row.categoryId with
  | none => rules
  | some categoryId =>
      match learnFromChoice normalizeDescription db rules org row.description categoryId
        row.learningSource with
      | .ok rules => rules
      | .error _ => rules

/-! ### The loop -/

namespace Books

variable (normalizeDescription : String → String)

/-- One turn of the loop, with the learning after it. -/
def importStep (org : ℕ) (body : ImportConfirmRequest) (currency : String)
    (s : ImportState × Table CategoryRule) (row : ImportConfirmRow) :
    ImportState × Table CategoryRule :=
  let s' := Pfv.importStep org body currency s.1 row
  if rowOutcome org body currency s.1 row = .done .create then
    (s', learnFromRow normalizeDescription s'.db s.2 org row)
  else (s', s.2)

/-- Create, pair or drop transactions for all confirmed rows, and learn from them. -/
def executeImport (books : Books) (org : ℕ) (body : ImportConfirmRequest) (userId : Option ℕ) :
    Except ServiceError (Books × ImportConfirmResponse) := do
  let destinationAccount ← orRaise (books.account? body.accountId org)
    (.validation "Invalid account")
  let (s, rules) := body.rows.foldl
    (importStep normalizeDescription org body destinationAccount.currency)
    ({ db := books.toDb }, books.categoryRules)
  let (db, importId) ← importBatchOf org body userId s
  pure
    ({ books with toDb := db, categoryRules := rules },
      { importedCount := s.importedCount
        pairedCount := s.pairedCount
        droppedDuplicateCount := s.droppedDuplicateCount
        skippedCount := s.skippedCount
        errorCount := s.errors.length
        errors := s.errors
        importId := importId })

variable {normalizeDescription}

@[simp] theorem importStep_fst (org : ℕ) (body : ImportConfirmRequest) (currency : String)
    (s : ImportState × Table CategoryRule) (row : ImportConfirmRow) :
    (importStep normalizeDescription org body currency s row).1 =
      Pfv.importStep org body currency s.1 row := by
  unfold importStep
  dsimp only
  split_ifs <;> rfl

@[simp] theorem foldl_importStep_fst (org : ℕ) (body : ImportConfirmRequest) (currency : String)
    (rows : List ImportConfirmRow) (s : ImportState × Table CategoryRule) :
    (rows.foldl (importStep normalizeDescription org body currency) s).1 =
      rows.foldl (Pfv.importStep org body currency) s.1 := by
  induction rows generalizing s with
  | nil => rfl
  | cons row rows ih => rw [List.foldl_cons, List.foldl_cons, ih, importStep_fst]

/-- What an import does to the ledger and answers, it does and answers without learning. -/
theorem executeImport_ledger (books : Books) (org : ℕ) (body : ImportConfirmRequest)
    (userId : Option ℕ) :
    (books.executeImport normalizeDescription org body userId).map
        (fun p => (p.1.toDb, p.2)) = Pfv.executeImport books.toDb org body userId := by
  unfold executeImport Pfv.executeImport
  cases hdestination : books.account? body.accountId org with
  | none => rfl
  | some account =>
    simp only [bind_of_ok (orRaise_eq_ok.mpr rfl)]
    rw [foldl_importStep_fst]
    cases importBatchOf org body userId _ with
    | error e => rfl
    | ok p => rfl

end Books

end Pfv
