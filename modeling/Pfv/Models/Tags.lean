import Pfv.Models.Schemas

/-!
# Tags and the shared dictionary

The rows behind tags (`backend/app/models/tag.py`, `backend/app/models/settings.py`): the tags of an
organisation with their transactions, the dictionary of tags that organisations share, and one
contributor row for every organisation that contributed a tag to it. The dictionary keeps the number
of its contributors beside each tag. Time stamps are left out.

## Main definitions

* `Tag`, `TransactionTag`, `TagDictionary`, `TagDictionaryContributor`, `OrgSetting`.
* `TagStore`: the tables, and the queries of the tag service.
* `TagStore.contributorsOf`: the contributor rows of a dictionary tag.
* `normalizeTagName`: the form of a name that is unique.
-/

namespace Pfv

structure Tag where
  id : ℕ := 0
  orgId : ℕ
  name : String
  nameNormalized : String
  createdByUserId : Option ℕ := none
  deriving DecidableEq

/-- A tag on a transaction; `id` stands for the pair, the primary key of the table. -/
structure TransactionTag where
  id : ℕ := 0
  transactionId : ℕ
  tagId : ℕ
  deriving DecidableEq

/-- A tag of the shared dictionary. Seeded tags are suggested whatever their count. -/
structure TagDictionary where
  id : ℕ := 0
  nameNormalized : String
  contributorOrgCount : ℤ := 0
  usageCount : ℤ := 0
  isSeed : Bool := false
  deriving DecidableEq

/-- The organisation has contributed the dictionary tag at least once. -/
structure TagDictionaryContributor where
  id : ℕ := 0
  dictionaryTagId : ℕ
  contributorOrgId : ℕ
  deriving DecidableEq

structure OrgSetting where
  id : ℕ := 0
  orgId : ℕ
  key : String
  value : String
  deriving DecidableEq

instance : Row Tag := ⟨Tag.id, fun n t => { t with id := n }, fun _ _ => rfl⟩

instance : Row TransactionTag :=
  ⟨TransactionTag.id, fun n j => { j with id := n }, fun _ _ => rfl⟩

instance : Row TagDictionary := ⟨TagDictionary.id, fun n e => { e with id := n }, fun _ _ => rfl⟩

instance : Row TagDictionaryContributor :=
  ⟨TagDictionaryContributor.id, fun n c => { c with id := n }, fun _ _ => rfl⟩

instance : Row OrgSetting := ⟨OrgSetting.id, fun n s => { s with id := n }, fun _ _ => rfl⟩

/-- The tables behind tags. -/
structure TagStore where
  settings : Table OrgSetting
  transactions : Table Transaction
  tags : Table Tag
  transactionTags : Table TransactionTag
  dictionary : Table TagDictionary
  contributors : Table TagDictionaryContributor

namespace TagStore

/-- The tag of an organisation with a given name (`_get_tag_by_normalized`). -/
def tag? (store : TagStore) (org : ℕ) (name : String) : Option Tag :=
  store.tags.rows.find? fun t => t.orgId = org ∧ t.nameNormalized = name

/-- The dictionary tag with a given name. -/
def entry? (store : TagStore) (name : String) : Option TagDictionary :=
  store.dictionary.rows.find? (·.nameNormalized = name)

/-- The contributor rows of a dictionary tag. -/
def contributorsOf (store : TagStore) (dictionaryTagId : ℕ) : List TagDictionaryContributor :=
  store.contributors.rows.filter (·.dictionaryTagId = dictionaryTagId)

/-- The organisation has a contributor row for the dictionary tag. -/
def HasContributor (store : TagStore) (dictionaryTagId org : ℕ) : Prop :=
  ∃ c ∈ store.contributors.rows, c.dictionaryTagId = dictionaryTagId ∧ c.contributorOrgId = org

instance (store : TagStore) (dictionaryTagId org : ℕ) :
    Decidable (store.HasContributor dictionaryTagId org) :=
  inferInstanceAs (Decidable (∃ c ∈ store.contributors.rows, _))

/-- The dictionary tags an organisation contributed to. -/
def contributedIds (store : TagStore) (org : ℕ) : List ℕ :=
  (store.contributors.rows.filter (·.contributorOrgId = org)).map (·.dictionaryTagId)

/-- `is_share_tag_data_enabled`. -/
def sharesTagData (store : TagStore) (org : ℕ) : Bool :=
  (store.settings.rows.find? fun s => s.orgId = org ∧ s.key = "share_tag_data").any
    (·.value = "true")

end TagStore

/-! ### Names -/

/-- Every run of white space as a single space: `_WHITESPACE_RUN_RE.sub(" ", ..)`. -/
def collapseSpaces : List Char → List Char
  | [] => []
  | c :: l =>
      if ¬isSpace c then c :: collapseSpaces l
      else if l.head?.any isSpace then collapseSpaces l
      else ' ' :: collapseSpaces l

/-- `TAG_NAME_MAX_LENGTH`. -/
def tagNameMaxLength : ℕ := 32

/-- The characters of a normalized name: `_ALLOWED_CHARS_RE`. -/
def tagNameChar (c : Char) : Bool :=
  ('a' ≤ c ∧ c ≤ 'z') ∨ ('0' ≤ c ∧ c ≤ '9') ∨ c = ' ' ∨ c = '-'

/-- `normalize_tag_name`. -/
def normalizeTagName [Casing] (raw : String) : Except ServiceError String := do
  let cleaned := collapseSpaces (Casing.lower (strip raw)).toList
  raiseIf (cleaned = []) (.validation "Tag name is required")
  raiseIf (tagNameMaxLength < cleaned.length)
    (.validation s!"Tag name must be {tagNameMaxLength} characters or fewer")
  raiseIf (¬cleaned.all tagNameChar)
    (.validation ("Tag name may only contain lowercase letters, digits, " ++
      "spaces, and hyphens"))
  pure (String.ofList cleaned)

/-- The name as the user wrote it, trimmed and with single spaces. -/
def displayTagName (raw : String) : String :=
  String.ofList (collapseSpaces (strip raw).toList)

/-- `_is_dictionary_eligible`: short, and with at most one hyphen. -/
def isDictionaryEligible (nameNormalized : String) : Bool :=
  nameNormalized.length ≤ 16 ∧ nameNormalized.toList.count '-' ≤ 1

end Pfv
