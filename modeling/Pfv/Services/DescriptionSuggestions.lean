import Mathlib.Data.Char
import Pfv.Base.Grouping
import Pfv.Services.Listing

/-!
# Suggesting descriptions

`get_description_suggestions` of `backend/app/services/transaction_suggestions_service.py`: one
query groups the transactions of an organisation by description, a second one by description and
category, and the code joins their rows by the text of the description. The database groups
descriptions by what its collation compares, sorts groups that tie in any order and takes the text
of a group from any of its rows; the two queries are relations between the tables and their answers.

## Main definitions

* `BookedDb`: the tables, with a category of the organisation on every transaction.
* `DescriptionQuery`, `CategoryQuery`: the answers of the two queries.
* `shapeSuggestions`: what the code makes of them.
* `SuggestsDescriptions`: the lists the function may return.
-/

namespace Pfv

/-- The tables behind the suggestions. Every transaction has a category of its organisation. -/
structure BookedDb extends Db where
  booked : ∀ t ∈ transactions.rows, (toDb.category? t.categoryId t.orgId).isSome = true

structure DescriptionSuggestion where
  description : String
  categoryId : ℕ
  categoryName : String
  useCount : ℕ
  lastUsed : Date
  deriving DecidableEq

/-! ### The rows of the queries -/

/-- What the database compares of a description. -/
def Collation.keysOf (col : Collation) (s : String) : List Char := s.toList.map col.key

/-- The transactions of an organisation with a type. -/
def Db.rowsOfType (db : Db) (org : ℕ) (type : TransactionType) : List Transaction :=
  db.transactions.rows.filter fun t => t.orgId = org ∧ t.type = type

/-- `_normalize_prefix`. -/
def normalizePrefix (q : List Char) : List Char :=
  Like.escape '_' (Like.escape '%' (Like.escape '\\' q))

/-- `Transaction.description.like(pattern, escape="\\")`. -/
def Transaction.descriptionLike (t : Transaction) (col : Collation) (pattern : List Char) : Bool :=
  col.like pattern t.description

/-- The last date of some transactions, as an ordinal. -/
def latestOf (rows : List Transaction) : ℕ :=
  (rows.map (·.date.toOrdinal)).foldr max 0

section Queries

variable (db : Db) (col : Collation) (org : ℕ) (type : TransactionType) (q : Option String)

/-- The text of the query; a query that is left out is an empty one. -/
def queryText (q : Option String) : List Char := (q.getD "").toList

/-- The rows of the first query. -/
def suggestibleRows : List Transaction :=
  (db.rowsOfType org type).filter fun t =>
    queryText q = [] || t.descriptionLike col ('%' :: normalizePrefix (queryText q) ++ ['%'])

/-- The rows of the first query in one group. -/
def suggestibleGroup (k : List Char) : List Transaction :=
  groupOf (col.keysOf ·.description) (suggestibleRows db col org type q) k

/-- `prefix_rank`: the sum over a group of 1 for every row that begins with the query. -/
def prefixRank (k : List Char) : ℕ :=
  if queryText q = [] then 0
  else ((suggestibleGroup db col org type q k).map fun t =>
    if t.descriptionLike col (normalizePrefix (queryText q) ++ ['%']) then 1 else 0).sum

/-- The order of the first query: by `prefix_rank`, `use_count` and `last_used`. -/
def descriptionRank (k : List Char) : ℕ ×ₗ ℕ ×ₗ ℕ :=
  toLex (prefixRank db col org type q k, toLex ((suggestibleGroup db col org type q k).length,
    latestOf (suggestibleGroup db col org type q k)))

/-- A row of the first query. -/
structure DescriptionRow where
  description : String
  useCount : ℕ
  lastUsed : Date

/-- The row describes a group. -/
structure DescriptionRow.Of (r : DescriptionRow) (group : List Transaction) : Prop where
  description : ∃ t ∈ group, t.description = r.description
  useCount : r.useCount = group.length
  lastUsed : ∃ t ∈ group, t.date = r.lastUsed
  latest : ∀ t ∈ group, t.date ≤ r.lastUsed

/-- The first query may return these rows. -/
def DescriptionQuery (limit : ℕ) (rows : List DescriptionRow) : Prop :=
  ∃ groups, SortsGroups ((suggestibleRows db col org type q).map (col.keysOf ·.description))
      (descriptionRank db col org type q) groups ∧
    List.Forall₂ (fun k r => r.Of (suggestibleGroup db col org type q k)) (groups.take limit) rows

/-- The rows of the second query: those with one of the descriptions. -/
def pairedRows (descriptions : List String) : List Transaction :=
  (db.rowsOfType org type).filter fun t =>
    descriptions.any fun d => col.keysOf d = col.keysOf t.description

/-- What the second query groups by. -/
def pairOf (t : Transaction) : List Char × ℕ := (col.keysOf t.description, t.categoryId)

/-- The order of the second query: by description, and then by `pair_count` and `pair_last_used`. -/
def pairRank (rows : List Transaction) (pair : List Char × ℕ) : (List Char)ᵒᵈ ×ₗ ℕ ×ₗ ℕ :=
  toLex (OrderDual.toDual pair.1, toLex ((groupOf (pairOf col) rows pair).length,
    latestOf (groupOf (pairOf col) rows pair)))

/-- A row of the second query. -/
structure CategoryRow where
  description : String
  categoryId : ℕ

/-- The row describes a description and a category. -/
structure CategoryRow.Of (r : CategoryRow) (rows : List Transaction) (pair : List Char × ℕ) :
    Prop where
  description : ∃ t ∈ groupOf (pairOf col) rows pair, t.description = r.description
  categoryId : r.categoryId = pair.2

/-- The second query may return these rows. -/
def CategoryQuery (descriptions : List String) (catRows : List CategoryRow) : Prop :=
  ∃ pairs, SortsGroups ((pairedRows db col org type descriptions).map (pairOf col))
      (pairRank col (pairedRows db col org type descriptions)) pairs ∧
    List.Forall₂ (fun pair r => r.Of col (pairedRows db col org type descriptions) pair) pairs
      catRows

/-! ### The function -/

/-- `top_category_by_desc.get(description)`: the first row of a description wins. -/
def topCategory (catRows : List CategoryRow) (description : String) : Option ℕ :=
  (catRows.find? (·.description = description)).map (·.categoryId)

/-- The suggestion of a row, unless its category is missing. -/
def shapeSuggestion (catRows : List CategoryRow) (r : DescriptionRow) :
    Option DescriptionSuggestion :=
  (topCategory catRows r.description).bind fun catId =>
    (db.category? catId org).map fun c =>
      { description := r.description
        categoryId := catId
        categoryName := c.name
        useCount := r.useCount
        lastUsed := r.lastUsed }

/-- The suggestions from the rows of the two queries. -/
def shapeSuggestions (rows : List DescriptionRow) (catRows : List CategoryRow) :
    List DescriptionSuggestion :=
  rows.filterMap (shapeSuggestion db org catRows)

/-- `get_description_suggestions` may return this list. -/
def SuggestsDescriptions (limit : ℕ) (out : List DescriptionSuggestion) : Prop :=
  ∃ rows catRows, DescriptionQuery db col org type q limit rows ∧
    CategoryQuery db col org type (rows.map (·.description)) catRows ∧
    out = shapeSuggestions db org rows catRows

end Queries

end Pfv
