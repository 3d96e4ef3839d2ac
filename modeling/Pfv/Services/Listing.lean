import Pfv.Models.Collation

/-!
# Listing transactions

`list_transactions` of `backend/app/services/transaction_service.py` and its route in
`backend/app/routers/transactions.py`: one query with ten optional filters, sorted and cut to a
page. The query runs in MySQL, where a pattern of `ilike` given no escape character has the
backslash for it, and compares descriptions and the names of tags under a collation.

## Main definitions

* `TaggedDb`: the tables with those behind tags.
* `TransactionQuery`, `TransactionQuery.keeps`: the filters, and the rows they keep.
* `listTransactions`, `listTransactionsRoute`.
-/

namespace Pfv

/-! ### The tables -/

/-- A name as `normalize_tag_name` leaves it. -/
def IsTagName [Casing] (name : String) : Prop := ∃ raw, normalizeTagName raw = .ok name

theorem IsTagName.chars [Casing] {name : String} (h : IsTagName name) :
    name.toList.all tagNameChar = true := by
  obtain ⟨raw, hraw⟩ := h
  simp only [normalizeTagName, ↓raiseIf_bind_eq_ok, pure_eq_ok, not_not] at hraw
  obtain ⟨-, -, hchars, rfl⟩ := hraw
  simpa using hchars

/-- The tables behind the list. The names of tags are normalized wherever the tag service writes
them, and unique in an organisation. -/
structure TaggedDb [Casing] extends Db where
  tags : Table Tag
  transactionTags : Table TransactionTag
  isTagName : ∀ tag ∈ tags.rows, IsTagName tag.nameNormalized
  names_nodup : (tags.rows.map fun tag => (tag.orgId, tag.nameNormalized)).Nodup

/-- The subcategories of a category. -/
def Db.subcategoryIds (db : Db) (org categoryId : ℕ) : List ℕ :=
  (db.categories.rows.filter fun c => c.orgId = org ∧ c.parentId = some categoryId).map (·.id)

/-- The transactions that have a tag with one of the names. -/
def TaggedDb.taggedIds [Casing] (db : TaggedDb) (col : Collation) (org : ℕ) (names : List String) :
    List ℕ :=
  (db.transactionTags.rows.filter fun j =>
    (db.tags.get? j.tagId).any fun tag =>
      tag.orgId = org ∧ ∃ name ∈ names, col.Equal tag.nameNormalized name).map (·.transactionId)

/-! ### The query -/

/-- `tag_match`. -/
inductive TagMatch
  | all
  | any
  deriving DecidableEq

/-- The filters on the columns of a row. -/
structure ColumnFilters where
  accountId : Option ℕ := none
  categoryId : Option ℕ := none
  txType : Option EntryType := none
  status : Option TransactionStatus := none
  dateFrom : Option Date := none
  dateTo : Option Date := none
  search : Option String := none

/-- The filters of `list_transactions`; a list of tags that is left out is an empty one. -/
structure TransactionQuery extends ColumnFilters where
  tags : List String := []
  tagsExclude : List String := []
  tagMatch : TagMatch := .all

/-- `t.strip().lower()`. -/
def requestedTagName [Casing] (t : String) : String :=
  Casing.lower (strip t)

/-- The names of a request that are not blank, each as the query compares it. -/
def requestedTagNames [Casing] (tags : List String) : List String :=
  (tags.filter fun t => strip t ≠ "").map requestedTagName

/-- The conditions of the query on the columns of a row. -/
def ColumnFilters.keepsColumns [Casing] (f : ColumnFilters) (col : Collation) (db : TaggedDb)
    (org : ℕ) (t : Transaction) : Bool :=
  t.orgId = org ∧
  f.accountId.all (fun accountId => t.accountId = accountId) ∧
  f.categoryId.all (fun categoryId =>
    t.categoryId = categoryId ∨ t.categoryId ∈ db.subcategoryIds org categoryId) ∧
  f.txType.all (fun type => t.type = type.toTransactionType) ∧
  f.status.all (fun status => t.status = status) ∧
  f.dateFrom.all (fun date => date ≤ t.effectivePeriodDate) ∧
  f.dateTo.all (fun date => t.effectivePeriodDate ≤ date) ∧
  f.search.all fun text =>
    col.like ('%' :: text.toList ++ ['%']) t.description

namespace TransactionQuery

/-- The conditions of the query on the tags of a row. -/
def keepsTags [Casing] (q : TransactionQuery) (col : Collation) (db : TaggedDb) (org : ℕ)
    (t : Transaction) :
    Bool :=
  let tagNames := requestedTagNames q.tags
  let excl := requestedTagNames q.tagsExclude
  (tagNames = [] || match q.tagMatch with
    | .any => decide (t.id ∈ db.taggedIds col org tagNames)
    | .all => tagNames.all fun name => t.id ∈ db.taggedIds col org [name]) &&
  (excl = [] || t.id ∉ db.taggedIds col org excl)

/-- The `WHERE` clause of the query. -/
def keeps [Casing] (q : TransactionQuery) (col : Collation) (db : TaggedDb) (org : ℕ)
    (t : Transaction) :
    Bool :=
  q.keepsColumns col db org t && q.keepsTags col db org t

end TransactionQuery

/-- The order of the list: by effective date and then by id, both descending. -/
def Transaction.ListedFirst (t t' : Transaction) : Prop :=
  t'.effectivePeriodDate < t.effectivePeriodDate ∨
    t'.effectivePeriodDate = t.effectivePeriodDate ∧ t'.id ≤ t.id

instance (t t' : Transaction) : Decidable (t.ListedFirst t') :=
  inferInstanceAs (Decidable (_ ∨ _))

/-- The rows of the query in their order. -/
def selectTransactions [Casing] (db : TaggedDb) (col : Collation) (org : ℕ) (q : TransactionQuery) :
    List Transaction :=
  (db.transactions.rows.filter (q.keeps col db org)).insertionSort Transaction.ListedFirst

/-- `list_transactions`. -/
def listTransactions [Casing] (db : TaggedDb) (col : Collation) (org : ℕ) (q : TransactionQuery)
    (limit offset : ℕ) : List Transaction :=
  ((selectTransactions db col org q).drop offset).take limit

/-! ### The route -/

/-- The names in a comma-separated parameter. -/
def splitTagNames (param : Option String) : List String :=
  (((param.getD "").toList.splitOn ',').map fun s => strip (String.ofList s)).filter (· ≠ "")

/-- The parameters of the route. A limit that is not positive is left out. -/
structure ListRequest extends ColumnFilters where
  tags : Option String := none
  tagsExclude : Option String := none
  tagMatch : TagMatch := .all
  limit : ℕ := 50
  offset : ℕ := 0
  limit_pos : 0 < limit := by decide
  limit_le : limit ≤ 200 := by decide

/-- The route `GET /api/v1/transactions`. -/
def listTransactionsRoute [Casing] (db : TaggedDb) (col : Collation) (org : ℕ) (r : ListRequest) :
    List Transaction :=
  listTransactions db col org
    { r.toColumnFilters with
      tags := splitTagNames r.tags
      tagsExclude := splitTagNames r.tagsExclude
      tagMatch := r.tagMatch }
    r.limit r.offset

end Pfv
