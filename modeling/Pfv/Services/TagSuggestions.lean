import Pfv.Base.Distinct
import Pfv.Services.Listing

/-!
# Suggesting tags

`suggest_tags` of `backend/app/services/tag_service.py`: the tags an organisation has used in a
category, then all its tags, then the shared dictionary, each from the most used one on and without
names that were suggested before.

## Main definitions

* `TagDb`: the tables behind tags, with the constraints on names.
* `categoryRanking`, `recentRanking`, `dictionaryRanking`: the queries of the three passes without
  their limits.
* `likeClause`, `suggestTags`.
-/

namespace Pfv

/-- The tables behind tags. A name is unique in its organisation and in the dictionary, and
normalized wherever it is written. -/
structure TagDb [Casing] extends TagStore where
  names_nodup : (tags.rows.map fun tag => (tag.orgId, tag.nameNormalized)).Nodup
  entries_nodup : (dictionary.rows.map (·.nameNormalized)).Nodup
  isTagName : ∀ tag ∈ tags.rows, IsTagName tag.nameNormalized
  isEntryName : ∀ e ∈ dictionary.rows, IsTagName e.nameNormalized

/-- `SHARED_DICTIONARY_MIN_CONTRIBUTORS`. -/
def sharedDictionaryMinContributors : ℕ := 3

/-- The condition of the third pass on a dictionary tag: seeded, or at the k-anonymity floor. -/
def TagDictionary.isShared (e : TagDictionary) : Prop :=
  (sharedDictionaryMinContributors : ℤ) ≤ e.contributorOrgCount ∨ e.isSeed = true

instance (e : TagDictionary) : Decidable e.isShared := inferInstanceAs (Decidable (_ ∨ _))

/-- The pass a suggestion comes from. -/
inductive SuggestionSource
  | orgCoCategory
  | orgRecent
  | sharedDictionary
  deriving DecidableEq

structure TagSuggestion where
  name : String
  source : SuggestionSource
  weight : ℤ
  deriving DecidableEq

/-- A row of one of the queries, with the name it is compared by. -/
structure RankedTag where
  nameNormalized : String
  suggestion : TagSuggestion
  deriving DecidableEq

/-- The order of the queries: by weight, descending, and then by name. -/
def RankedTag.RankedFirst (a b : RankedTag) : Prop :=
  b.suggestion.weight < a.suggestion.weight ∨
    a.suggestion.weight = b.suggestion.weight ∧ a.nameNormalized ≤ b.nameNormalized

instance : DecidableRel RankedTag.RankedFirst := fun _ _ => inferInstanceAs (Decidable (_ ∨ _))

/-- The prefix, trimmed and in lower case. -/
def normalizedPrefix [Casing] (pre : Option String) : List Char :=
  (Casing.lower (strip (pre.getD ""))).toList

/-- The pattern of the queries: the prefix and a `%`. -/
def likeClause [Casing] (pre : Option String) : List Char := normalizedPrefix pre ++ ['%']

namespace TagStore

variable (store : TagStore) (org : ℕ)

/-- How often a tag is on a transaction of the organisation in a category. -/
def coCategoryWeight (categoryId : ℕ) (tag : Tag) : ℕ :=
  (store.transactionTags.rows.filter fun j => j.tagId = tag.id ∧
    (store.transactions.get? j.transactionId).any fun t =>
      t.orgId = org ∧ t.categoryId = categoryId).length

/-- How often a tag is on a transaction. -/
def usageWeight (tag : Tag) : ℕ :=
  (store.transactionTags.rows.filter (·.tagId = tag.id)).length

/-- The query of the first pass, over the names that satisfy `like`. -/
def categoryRanking (categoryId : ℕ) (like : String → Bool) : List RankedTag :=
  ((store.tags.rows.filter fun tag => tag.orgId = org ∧ like tag.nameNormalized ∧
      0 < store.coCategoryWeight org categoryId tag).map fun tag =>
    { nameNormalized := tag.nameNormalized
      suggestion :=
        { name := tag.name
          source := .orgCoCategory
          weight := store.coCategoryWeight org categoryId tag } }).insertionSort
      RankedTag.RankedFirst

/-- The query of the second pass. -/
def recentRanking (like : String → Bool) : List RankedTag :=
  ((store.tags.rows.filter fun tag => tag.orgId = org ∧ like tag.nameNormalized).map fun tag =>
    { nameNormalized := tag.nameNormalized
      suggestion :=
        { name := tag.name
          source := .orgRecent
          weight := store.usageWeight tag } }).insertionSort RankedTag.RankedFirst

/-- The query of the third pass. -/
def dictionaryRanking (like : String → Bool) : List RankedTag :=
  ((store.dictionary.rows.filter fun e => like e.nameNormalized ∧ e.isShared).map fun e =>
    { nameNormalized := e.nameNormalized
      suggestion :=
        { name := e.nameNormalized
          source := .sharedDictionary
          weight := e.usageCount } }).insertionSort RankedTag.RankedFirst

/-- The rows one pass adds: its page has room for the names that were suggested before. -/
def addPass (limit : ℕ) (suggestions ranking : List RankedTag) : List RankedTag :=
  if limit ≤ suggestions.length then suggestions
  else addPage RankedTag.nameNormalized limit suggestions
    (ranking.take (limit - suggestions.length + suggestions.length))

/-- `suggest_tags`. -/
def suggestTags [Casing] (col : Collation) (pre : Option String) (categoryId : Option ℕ)
    (limit : ℕ) : List TagSuggestion :=
  let like := col.like (likeClause pre)
  let first := (categoryId.map fun c =>
    addPass limit [] (store.categoryRanking org c like)).getD []
  let second := addPass limit first (store.recentRanking org like)
  let third := if store.sharesTagData org then
    addPass limit second (store.dictionaryRanking like) else second
  third.map (·.suggestion)

end TagStore

end Pfv
