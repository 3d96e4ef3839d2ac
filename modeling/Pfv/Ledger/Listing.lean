import Pfv.Base.Paging
import Pfv.Services.Listing

/-!
# The list of transactions

Reading the list page after page returns the transactions the filters ask for, each once and in
order, except for some requests. The search text goes into the pattern of the query as it is, so its
`%`, `_` and backslashes are read as signs of the pattern, and the collation of the database may
take characters for the same that differ in more than their case. The names of tags are trimmed and
lowered but keep the white space inside them, which `normalize_tag_name` collapsed when the tag was
created, and under the collation a name that no tag can have may be equal to the name of a tag.

## Main definitions

* `TransactionQuery.Passes`: the tag filters, for a way to read the names of a request.
* `LetterCase`: the case of letters, up to which a search text is to be found.
* `TransactionQuery.Selects`: the rows a query asks for.
* `ListingExact`: reading the pages of a query returns the rows it asks for.

## Main results

* `listingExact_iff`: reading page after page is exact when the query keeps the right rows.
* `listingExact_forall_iff`: the queries whose list is exact over every database.
-/

namespace Pfv

/-! ### Names of tags -/

/-- A request that names a tag by its normalized name means it. -/
def Means [Casing] (requested name : String) : Prop := normalizeTagName requested = .ok name

instance [Casing] (requested name : String) : Decidable (Means requested name) :=
  inferInstanceAs (Decidable (_ = _))

/-- The query compares a requested name with the name of a tag as equal. -/
def HeardAs [Casing] (col : Collation) (requested name : String) : Prop :=
  col.Equal name (requestedTagName requested)

theorem Means.isTagName [Casing] {requested name : String} (h : Means requested name) :
    IsTagName name :=
  ⟨requested, h⟩

theorem Means.unique [Casing] {requested name name' : String} (h : Means requested name)
    (h' : Means requested name') : name = name' :=
  Except.ok.inj (h.symm.trans h')

/-- The query finds one tag at most under a requested name. -/
theorem HeardAs.unique [Casing] {col : Collation} {requested name name' : String}
    (h : HeardAs col requested name) (h' : HeardAs col requested name') (hname : IsTagName name)
    (hname' : IsTagName name') : name = name' :=
  col.weights_injOn hname.chars hname'.chars (h.trans h'.symm)

namespace TransactionQuery

/-- The names of included tags that are not blank. -/
def included (q : TransactionQuery) : List String := q.tags.filter fun t => strip t ≠ ""

/-- The names of excluded tags that are not blank. -/
def excluded (q : TransactionQuery) : List String := q.tagsExclude.filter fun t => strip t ≠ ""

/-- A transaction with the given tags passes the tag filters, when a requested name is read by
`reads`. -/
def Passes (q : TransactionQuery) (reads : String → String → Prop) (names : List String) : Prop :=
  (q.included ≠ [] → match q.tagMatch with
    | .any => ∃ requested ∈ q.included, ∃ name ∈ names, reads requested name
    | .all => ∀ requested ∈ q.included, ∃ name ∈ names, reads requested name) ∧
  ∀ requested ∈ q.excluded, ∀ name ∈ names, ¬reads requested name

/-- The included part of the tag filters passes with more tags too. -/
theorem Passes.insert {q : TransactionQuery} {reads : String → String → Prop} {name : String}
    {names : List String} (h : q.Passes reads names)
    (hname : ∀ requested ∈ q.excluded, ¬reads requested name) :
    q.Passes reads (name :: names) := by
  refine ⟨fun hne => ?_, fun requested hr => List.forall_mem_cons.mpr
    ⟨hname requested hr, h.2 requested hr⟩⟩
  have hincluded := h.1 hne
  cases hmatch : q.tagMatch with
  | any =>
    rw [hmatch] at hincluded
    obtain ⟨requested, hr, other, hother, hreads⟩ := hincluded
    exact ⟨requested, hr, other, List.mem_cons_of_mem _ hother, hreads⟩
  | all =>
    rw [hmatch] at hincluded
    intro requested hr
    obtain ⟨other, hother, hreads⟩ := hincluded requested hr
    exact ⟨other, List.mem_cons_of_mem _ hother, hreads⟩

/-- A tag under none of the included names is not needed to pass them. -/
theorem Passes.filter {q : TransactionQuery} {reads : String → String → Prop} {name : String}
    {names : List String} (h : q.Passes reads names)
    (hname : ∀ requested ∈ q.included, ¬reads requested name) :
    q.Passes reads (names.filter (· ≠ name)) := by
  have hkept : ∀ requested ∈ q.included, ∀ other ∈ names, reads requested other →
      other ∈ names.filter (· ≠ name) := by
    intro requested hr other hother hreads
    refine List.mem_filter.mpr ⟨hother, decide_eq_true fun heq => hname requested hr ?_⟩
    rwa [heq] at hreads
  refine ⟨fun hne => ?_, fun requested hr other hother =>
    h.2 requested hr other (List.mem_of_mem_filter hother)⟩
  have hincluded := h.1 hne
  cases hmatch : q.tagMatch with
  | any =>
    rw [hmatch] at hincluded
    obtain ⟨requested, hr, other, hother, hreads⟩ := hincluded
    exact ⟨requested, hr, other, hkept requested hr other hother hreads, hreads⟩
  | all =>
    rw [hmatch] at hincluded
    intro requested hr
    obtain ⟨other, hother, hreads⟩ := hincluded requested hr
    exact ⟨other, hkept requested hr other hother hreads, hreads⟩

/-- Some name of a list is read as the name of a tag in the one way just when some is in the
other. -/
def SameNames [Casing] (col : Collation) (requested : List String) (name : String) : Prop :=
  (∃ r ∈ requested, HeardAs col r name) ↔ ∃ r ∈ requested, Means r name

/-- The query hears the names of the request as they are meant: the excluded names together, and the
included ones together as far as they are not excluded; when all of the included names are asked
for, all of them, each of which is the name of some tag in both ways. -/
structure NamesHeard [Casing] (q : TransactionQuery) (col : Collation) : Prop where
  excluded : ∀ name, IsTagName name → SameNames col q.excluded name
  any : q.tagMatch = .any → ∀ name, IsTagName name → (∀ r ∈ q.excluded, ¬Means r name) →
    SameNames col q.included name
  all : q.tagMatch = .all → (∀ name, IsTagName name → SameNames col q.included name) ∧
    ∀ r ∈ q.included, (∃ name, IsTagName name ∧ HeardAs col r name) ∧ ∃ name, Means r name

/-- With names heard as they are meant, the tag filters pass the same tags. -/
theorem NamesHeard.passes_iff [Casing] {q : TransactionQuery} {col : Collation}
    (h : q.NamesHeard col) {names : List String} (hnames : ∀ name ∈ names, IsTagName name) :
    q.Passes (HeardAs col) names ↔ q.Passes Means names := by
  have hexcluded : (∀ requested ∈ q.excluded, ∀ name ∈ names, ¬HeardAs col requested name) ↔
      ∀ requested ∈ q.excluded, ∀ name ∈ names, ¬Means requested name := by
    have hsame := fun name hname => not_congr (h.excluded name (hnames name hname))
    push Not at hsame
    constructor
    · exact fun hnone r hr name hname =>
        (hsame name hname).mp (fun r' hr' => hnone r' hr' name hname) r hr
    · exact fun hnone r hr name hname =>
        (hsame name hname).mpr (fun r' hr' => hnone r' hr' name hname) r hr
  rw [Passes, Passes, hexcluded]
  refine and_congr_left fun hnone => imp_congr_right fun _ => ?_
  cases hmatch : q.tagMatch with
  | any =>
    have hsame := fun name hname => h.any hmatch name (hnames name hname) fun r hr =>
      hnone r hr name hname
    constructor
    · rintro ⟨requested, hr, name, hname, hread⟩
      obtain ⟨r, hmem, hmeans⟩ := (hsame name hname).mp ⟨requested, hr, hread⟩
      exact ⟨r, hmem, name, hname, hmeans⟩
    · rintro ⟨requested, hr, name, hname, hmeans⟩
      obtain ⟨r, hmem, hread⟩ := (hsame name hname).mpr ⟨requested, hr, hmeans⟩
      exact ⟨r, hmem, name, hname, hread⟩
  | all =>
    obtain ⟨hsame, heach⟩ := h.all hmatch
    constructor
    · intro hall requested hr
      obtain ⟨name, hmeans⟩ := (heach requested hr).2
      obtain ⟨r, hmem, hread⟩ := (hsame name hmeans.isTagName).mpr ⟨requested, hr, hmeans⟩
      obtain ⟨name', hname', hread'⟩ := hall r hmem
      obtain rfl := hread.unique hread' hmeans.isTagName (hnames name' hname')
      exact ⟨name, hname', hmeans⟩
    · intro hall requested hr
      obtain ⟨name, hname, hread⟩ := (heach requested hr).1
      obtain ⟨r, hmem, hmeans⟩ := (hsame name hname).mp ⟨requested, hr, hread⟩
      obtain ⟨name', hname', hmeans'⟩ := hall r hmem
      obtain rfl := hmeans.unique hmeans'
      exact ⟨name, hname', hread⟩

section Necessary

variable [Casing] {q : TransactionQuery} {col : Collation}
  (hsame : ∀ names, (∀ name ∈ names, IsTagName name) →
    (q.Passes (HeardAs col) names ↔ q.Passes Means names))
  {names : List String} (hnames : ∀ name ∈ names, IsTagName name)
  (hpasses : q.Passes (HeardAs col) names)

include hsame hnames hpasses

/-- When the tag filters pass the same tags, and some, the excluded names are heard as they are
meant: otherwise more tags would pass in one way only. -/
theorem sameNames_excluded_of_passes {name : String} (hname : IsTagName name) :
    SameNames col q.excluded name := by
  have hmore : ∀ n ∈ name :: names, IsTagName n := List.forall_mem_cons.mpr ⟨hname, hnames⟩
  constructor
  · rintro ⟨r, hr, hheard⟩
    by_contra hnone
    push Not at hnone
    have hinsert := (hsame _ hmore).mpr (((hsame names hnames).mp hpasses).insert hnone)
    exact hinsert.2 r hr name List.mem_cons_self hheard
  · rintro ⟨r, hr, hmeans⟩
    by_contra hnone
    push Not at hnone
    have hinsert := (hsame _ hmore).mp (hpasses.insert hnone)
    exact hinsert.2 r hr name List.mem_cons_self hmeans

/-- When any of the included names will do, those that are not excluded are heard as they are meant:
a transaction may have that tag alone. -/
theorem sameNames_included_of_any (hmatch : q.tagMatch = .any) {name : String}
    (hname : IsTagName name) (hfree : ∀ r ∈ q.excluded, ¬Means r name) :
    SameNames col q.included name := by
  have hone : ∀ n ∈ [name], IsTagName n := List.forall_mem_singleton.mpr hname
  have hheardFree : ∀ r ∈ q.excluded, ¬HeardAs col r name := by
    intro r hr hheard
    obtain ⟨r', hr', hmeans⟩ :=
      (sameNames_excluded_of_passes hsame hnames hpasses hname).mp ⟨r, hr, hheard⟩
    exact hfree r' hr' hmeans
  have hsingle : ∀ reads : String → String → Prop, (∀ r ∈ q.excluded, ¬reads r name) →
      (q.included ≠ [] → ((∃ r ∈ q.included, reads r name) ↔ q.Passes reads [name])) := by
    intro reads hout hne
    simp only [Passes, hmatch, List.mem_singleton, exists_eq_left, forall_eq]
    exact ⟨fun h => ⟨fun _ => h, hout⟩, fun h => h.1 hne⟩
  by_cases hne : q.included = []
  · simp [SameNames, hne]
  · rw [SameNames, hsingle _ hheardFree hne, hsingle _ hfree hne]
    exact hsame [name] hone

/-- When all of the included names are asked for, they are heard as they are meant: the tags that
pass do so without the others. -/
theorem sameNames_included_of_all (hmatch : q.tagMatch = .all) {name : String}
    (hname : IsTagName name) : SameNames col q.included name := by
  have hfewer : ∀ n ∈ names.filter (· ≠ name), IsTagName n := fun n hn =>
    hnames n (List.mem_of_mem_filter hn)
  constructor
  · rintro ⟨r, hr, hheard⟩
    by_contra hnone
    push Not at hnone
    have hrest := ((hsame _ hfewer).mpr (((hsame names hnames).mp hpasses).filter hnone)).1
      (List.ne_nil_of_mem hr)
    rw [hmatch] at hrest
    obtain ⟨n, hn, hother⟩ := hrest r hr
    exact of_decide_eq_true (List.mem_filter.mp hn).2
      (hother.unique hheard (hfewer n hn) hname)
  · rintro ⟨r, hr, hmeans⟩
    by_contra hnone
    push Not at hnone
    have hrest := ((hsame _ hfewer).mp (hpasses.filter hnone)).1 (List.ne_nil_of_mem hr)
    rw [hmatch] at hrest
    obtain ⟨n, hn, hother⟩ := hrest r hr
    exact of_decide_eq_true (List.mem_filter.mp hn).2 (hother.unique hmeans)

/-- When the tag filters pass the same tags, and some, the names are heard as they are meant. -/
theorem namesHeard_of_passes : q.NamesHeard col where
  excluded _ hname := sameNames_excluded_of_passes hsame hnames hpasses hname
  any hmatch _ hname hfree :=
    sameNames_included_of_any hsame hnames hpasses hmatch hname hfree
  all hmatch := by
    refine ⟨fun _ hname => sameNames_included_of_all hsame hnames hpasses hmatch hname,
      fun r hr => ?_⟩
    have hheard := hpasses.1 (List.ne_nil_of_mem hr)
    have hmeant := ((hsame names hnames).mp hpasses).1 (List.ne_nil_of_mem hr)
    rw [hmatch] at hheard hmeant
    obtain ⟨n, hn, hread⟩ := hheard r hr
    obtain ⟨n', -, hmeans⟩ := hmeant r hr
    exact ⟨⟨n, hnames n hn, hread⟩, n', hmeans⟩

end Necessary

end TransactionQuery

/-! ### The rows of a query -/

/-- The names of the tags of a transaction. -/
def TaggedDb.tagNamesOf [Casing] (db : TaggedDb) (org : ℕ) (t : Transaction) : List String :=
  (db.transactionTags.rows.filter (·.transactionId = t.id)).filterMap fun j =>
    ((db.tags.get? j.tagId).filter (·.orgId = org)).map (·.nameNormalized)

/-- A transaction is in a category or in one of its subcategories. -/
def Db.InCategory (db : Db) (org categoryId : ℕ) (t : Transaction) : Prop :=
  t.categoryId = categoryId ∨
    ∃ c, db.category? t.categoryId org = some c ∧ c.parentId = some categoryId

/-- The case of letters: characters with the same fold differ in their case only. -/
structure LetterCase where
  fold : Char → Char
  one : fold 'a' ≠ fold '_'
  escape : fold '%' ≠ fold '\\'

/-- A text contains another one up to case. -/
def LetterCase.Contains (lc : LetterCase) (s text : String) : Prop :=
  text.toList.map lc.fold <:+: s.toList.map lc.fold

instance (lc : LetterCase) (s text : String) : Decidable (lc.Contains s text) :=
  inferInstanceAs (Decidable (_ <:+: _))

/-- A row of the organisation satisfies the filters on its columns, the search text aside. -/
structure ColumnFilters.Fits (f : ColumnFilters) (db : Db) (org : ℕ) (t : Transaction) : Prop where
  orgId : t.orgId = org
  account : ∀ accountId ∈ f.accountId, t.accountId = accountId
  category : ∀ categoryId ∈ f.categoryId, db.InCategory org categoryId t
  txType : ∀ type ∈ f.txType, t.type = type.toTransactionType
  status : ∀ status ∈ f.status, t.status = status
  dateFrom : ∀ date ∈ f.dateFrom, date ≤ t.effectivePeriodDate
  dateTo : ∀ date ∈ f.dateTo, t.effectivePeriodDate ≤ date

/-- A query asks for a row. -/
structure TransactionQuery.Selects [Casing] (q : TransactionQuery) (lc : LetterCase) (db : TaggedDb)
    (org : ℕ) (t : Transaction) : Prop where
  fits : q.Fits db.toDb org t
  search : ∀ text ∈ q.search, lc.Contains t.description text
  tags : q.Passes Means (db.tagNamesOf org t)

section Rows

variable [Casing] {q : TransactionQuery} {col : Collation} {db : TaggedDb} {org : ℕ}
  {t : Transaction}

theorem TaggedDb.mem_tagNamesOf {name : String} :
    name ∈ db.tagNamesOf org t ↔ ∃ j ∈ db.transactionTags.rows, j.transactionId = t.id ∧
      ∃ tag, db.tags.get? j.tagId = some tag ∧ tag.orgId = org ∧ tag.nameNormalized = name := by
  simp only [tagNamesOf, List.mem_filterMap, List.mem_filter, decide_eq_true_eq,
    Option.map_eq_some_iff, Option.filter_eq_some_iff, and_assoc]

theorem TaggedDb.isTagName_of_mem {name : String} (h : name ∈ db.tagNamesOf org t) :
    IsTagName name := by
  obtain ⟨j, -, -, tag, htag, -, rfl⟩ := TaggedDb.mem_tagNamesOf.mp h
  exact db.isTagName tag (Table.get?_mem htag)

theorem TaggedDb.mem_taggedIds {names : List String} :
    t.id ∈ db.taggedIds col org names ↔
      ∃ name ∈ db.tagNamesOf org t, ∃ n ∈ names, col.Equal name n := by
  simp only [taggedIds, List.mem_map, List.mem_filter, Option.any_eq_true, decide_eq_true_eq,
    TaggedDb.mem_tagNamesOf]
  constructor
  · rintro ⟨j, ⟨hj, tag, htag, horg, hname⟩, hid⟩
    exact ⟨tag.nameNormalized, ⟨j, hj, hid, tag, htag, horg, rfl⟩, hname⟩
  · rintro ⟨_, ⟨j, hj, hid, tag, htag, horg, rfl⟩, hname⟩
    exact ⟨j, ⟨hj, tag, htag, horg, hname⟩, hid⟩

theorem exists_mem_requestedTagNames {tags : List String} {name : String} :
    (∃ n ∈ requestedTagNames tags, col.Equal name n) ↔
      ∃ requested ∈ tags.filter fun t => strip t ≠ "", HeardAs col requested name := by
  simp only [requestedTagNames, List.mem_map, exists_exists_and_eq_and, HeardAs]

/-- The conditions of the query on tags are the tag filters with the names as it hears them. -/
theorem keepsTags_iff :
    q.keepsTags col db org t = true ↔ q.Passes (HeardAs col) (db.tagNamesOf org t) := by
  have hnil : ∀ tags, requestedTagNames tags = [] ↔ (tags.filter fun t => strip t ≠ "") = [] :=
    fun tags => List.map_eq_nil_iff
  rw [TransactionQuery.keepsTags, Bool.and_eq_true, Bool.or_eq_true, Bool.or_eq_true]
  refine and_congr ?_ ?_
  · rw [decide_eq_true_eq, hnil, or_iff_not_imp_left]
    refine imp_congr_right fun hne => ?_
    cases hmatch : q.tagMatch with
    | any =>
      simp only [decide_eq_true_eq, TaggedDb.mem_taggedIds, exists_mem_requestedTagNames]
      constructor
      · rintro ⟨name, hname, requested, hr, hheard⟩
        exact ⟨requested, hr, name, hname, hheard⟩
      · rintro ⟨requested, hr, name, hname, hheard⟩
        exact ⟨name, hname, requested, hr, hheard⟩
    | all =>
      simp only [List.all_eq_true, decide_eq_true_eq, TaggedDb.mem_taggedIds, List.mem_singleton,
        exists_eq_left]
      exact List.forall_mem_map
  · simp only [decide_eq_true_eq, hnil, TaggedDb.mem_taggedIds, exists_mem_requestedTagNames]
    constructor
    · rintro (hnone | hnone) requested hr name hname hheard
      · rw [TransactionQuery.excluded, hnone] at hr
        exact absurd hr List.not_mem_nil
      · exact hnone ⟨name, hname, requested, hr, hheard⟩
    · refine fun h => Or.inr ?_
      rintro ⟨name, hname, requested, hr, hheard⟩
      exact h requested hr name hname hheard

omit [Casing] in
theorem mem_subcategoryIds {db : Db} {org id categoryId : ℕ} :
    id ∈ db.subcategoryIds org categoryId ↔
      ∃ c, db.category? id org = some c ∧ c.parentId = some categoryId := by
  simp only [Db.subcategoryIds, Db.category?, List.mem_map, List.mem_filter, decide_eq_true_eq,
    Option.filter_eq_some_iff]
  constructor
  · rintro ⟨c, ⟨hmem, horg, hparent⟩, rfl⟩
    exact ⟨c, ⟨Table.get?_of_mem hmem, horg⟩, hparent⟩
  · rintro ⟨c, ⟨hget, horg⟩, hparent⟩
    exact ⟨c, ⟨Table.get?_mem hget, horg, hparent⟩, Table.get?_id hget⟩

/-- The rows the query keeps: its pattern stands where the search text should, and it hears the
names of tags in its own way. -/
theorem keeps_iff :
    q.keeps col db org t = true ↔ q.Fits db.toDb org t ∧
      (∀ text ∈ q.search, col.like ('%' :: text.toList ++ ['%']) t.description = true) ∧
      q.Passes (HeardAs col) (db.tagNamesOf org t) := by
  rw [TransactionQuery.keeps, Bool.and_eq_true, keepsTags_iff, ← and_assoc]
  refine and_congr_left fun _ => ?_
  simp only [ColumnFilters.keepsColumns, decide_eq_true_eq, Option.all_eq_true, mem_subcategoryIds]
  constructor
  · rintro ⟨horg, haccount, hcategory, htype, hstatus, hfrom, hto, hsearch⟩
    exact ⟨⟨horg, haccount, hcategory, htype, hstatus, hfrom, hto⟩, hsearch⟩
  · rintro ⟨⟨horg, haccount, hcategory, htype, hstatus, hfrom, hto⟩, hsearch⟩
    exact ⟨horg, haccount, hcategory, htype, hstatus, hfrom, hto, hsearch⟩

end Rows

/-! ### Reading the pages -/

/-- A row comes before another one in descending order of effective date and id. -/
def Transaction.Precedes (t t' : Transaction) : Prop :=
  t'.effectivePeriodDate < t.effectivePeriodDate ∨
    t'.effectivePeriodDate = t.effectivePeriodDate ∧ t'.id < t.id

/-- Reading page after page of `n` rows returns every row the query asks for once, no other row, and
in order. -/
def ListingExact [Casing] (db : TaggedDb) (col : Collation) (lc : LetterCase) (org : ℕ)
    (q : TransactionQuery) (n : ℕ) : Prop :=
  ∃ l, PagesRead (listTransactions db col org q n) n 0 l ∧ l.Nodup ∧
    (∀ t, t ∈ l ↔ t ∈ db.transactions.rows ∧ q.Selects lc db org t) ∧
    l.Pairwise Transaction.Precedes

section Order

theorem Transaction.listedFirst_total (a b : Transaction) : a.ListedFirst b ∨ b.ListedFirst a := by
  simp only [Transaction.ListedFirst, Date.lt_iff, ← Date.toOrdinal_injective.eq_iff]
  omega

theorem Transaction.ListedFirst.trans {a b c : Transaction} (hab : a.ListedFirst b)
    (hbc : b.ListedFirst c) : a.ListedFirst c := by
  simp only [Transaction.ListedFirst, Date.lt_iff, ← Date.toOrdinal_injective.eq_iff] at *
  omega

instance : Std.Total Transaction.ListedFirst := ⟨Transaction.listedFirst_total⟩

instance : IsTrans Transaction Transaction.ListedFirst := ⟨fun _ _ _ h h' => h.trans h'⟩

variable [Casing] {db : TaggedDb} {col : Collation} {lc : LetterCase} {org : ℕ}
  {q : TransactionQuery}

theorem selectTransactions_ids_nodup :
    ((selectTransactions db col org q).map Transaction.id).Nodup := by
  refine ((List.perm_insertionSort _ _).map _).nodup_iff.mpr ?_
  exact (List.filter_sublist.map _).nodup db.transactions.nodup

theorem selectTransactions_precedes :
    (selectTransactions db col org q).Pairwise Transaction.Precedes := by
  have hsorted : (selectTransactions db col org q).Pairwise Transaction.ListedFirst :=
    List.pairwise_insertionSort _ _
  refine (hsorted.and (List.pairwise_map.mp selectTransactions_ids_nodup)).imp ?_
  rintro a b ⟨hlater | ⟨hsame, hid⟩, hne⟩
  · exact Or.inl hlater
  · exact Or.inr ⟨hsame, by omega⟩

theorem mem_selectTransactions {t : Transaction} :
    t ∈ selectTransactions db col org q ↔
      t ∈ db.transactions.rows ∧ q.keeps col db org t = true := by
  rw [selectTransactions, List.mem_insertionSort, List.mem_filter]

/-- Reading page after page is exact when the query keeps the rows it asks for. -/
theorem listingExact_iff {n : ℕ} (hn : 0 < n) :
    ListingExact db col lc org q n ↔
      ∀ t ∈ db.transactions.rows, (q.keeps col db org t = true ↔ q.Selects lc db org t) := by
  constructor
  · rintro ⟨l, hread, -, hmem, -⟩ t ht
    rw [(pagesRead_iff hn).mp hread] at hmem
    simpa only [mem_selectTransactions, ht, true_and] using hmem t
  · intro h
    refine ⟨selectTransactions db col org q, (pagesRead_iff hn).mpr rfl,
      List.Nodup.of_map _ selectTransactions_ids_nodup, fun t => ?_, selectTransactions_precedes⟩
    rw [mem_selectTransactions]
    exact and_congr_right (h t)

end Order

/-! ### A database with one row -/

namespace TransactionQuery

/-- The dates of the query are in the wrong order. -/
def DatesCross (q : TransactionQuery) : Prop := ∃ a ∈ q.dateFrom, ∃ b ∈ q.dateTo, b < a

/-- The tags of an organisation with the given names. -/
def tagsNamed (names : List String) : Table Tag :=
  (names.dedup.map fun name => { orgId := 1, name := name, nameNormalized := name }).foldl
    Table.insert Table.empty

theorem map_tagsNamed (names : List String) :
    (tagsNamed names).rows.map (fun tag => (tag.orgId, tag.nameNormalized)) =
      names.dedup.map fun name => (1, name) := by
  obtain ⟨new, hrows, hnew⟩ := Table.rows_foldl_insert
    (fun tag : Tag => (tag.orgId, tag.nameNormalized)) (fun _ _ => rfl)
    (names.dedup.map fun name => { orgId := 1, name := name, nameNormalized := name }) Table.empty
  have hall : (tagsNamed names).rows = new := hrows
  rw [hall, hnew, List.map_map]
  rfl

theorem exists_tagsNamed {names : List String} {name : String} :
    (∃ tag ∈ (tagsNamed names).rows, tag.orgId = 1 ∧ tag.nameNormalized = name) ↔
      name ∈ names := by
  have hmem : (1, name) ∈ (tagsNamed names).rows.map (fun tag => (tag.orgId, tag.nameNormalized)) ↔
      name ∈ names := by
    simp [map_tagsNamed]
  rw [← hmem]
  simp [List.mem_map]

/-- Those tags on the first transaction. -/
def firstTagged (names : List String) : Table TransactionTag :=
  ((tagsNamed names).rows.map fun tag => { transactionId := 1, tagId := tag.id }).foldl
    Table.insert Table.empty

theorem exists_firstTagged {names : List String} {tagId : ℕ} :
    (∃ j ∈ (firstTagged names).rows, j.transactionId = 1 ∧ j.tagId = tagId) ↔
      ∃ tag ∈ (tagsNamed names).rows, tag.id = tagId := by
  obtain ⟨new, hrows, hnew⟩ := Table.rows_foldl_insert
    (fun j : TransactionTag => (j.transactionId, j.tagId)) (fun _ _ => rfl)
    ((tagsNamed names).rows.map fun tag => { transactionId := 1, tagId := tag.id }) Table.empty
  have hall : (firstTagged names).rows = new := hrows
  have hmem : (1, tagId) ∈ new.map (fun j => (j.transactionId, j.tagId)) ↔
      ∃ tag ∈ (tagsNamed names).rows, tag.id = tagId := by
    simp [hnew]
  rw [← hmem, hall]
  simp [List.mem_map]

/-- A date within those of the query, when they are in order. -/
def someDate (q : TransactionQuery) : Date :=
  q.dateFrom.getD (q.dateTo.getD (.of 2026 1 1))

/-- A row that fits the columns of the query. -/
def oneRow (q : TransactionQuery) (description : String) : Transaction where
  id := 1
  orgId := 1
  accountId := q.accountId.getD 1
  categoryId := q.categoryId.getD 1
  description := description
  amount := 1
  type := (q.txType.getD .income).toTransactionType
  status := q.status.getD .settled
  date := q.someDate
  settledDate := q.someDate

/-- A database whose only transaction fits the columns of the query and has the given tags and
description. -/
def oneRowDb [Casing] (q : TransactionQuery) (names : List String)
    (hnames : ∀ name ∈ names, IsTagName name) (description : String) : TaggedDb where
  accountTypes := .empty
  accounts := .empty
  categories := .empty
  transactions := Table.empty.insert (q.oneRow description)
  recurring := .empty
  importBatches := .empty
  tags := tagsNamed names
  transactionTags := firstTagged names
  isTagName tag htag := by
    have hmem := List.mem_map_of_mem (f := fun tag : Tag => (tag.orgId, tag.nameNormalized)) htag
    rw [map_tagsNamed] at hmem
    obtain ⟨name, hname, heq⟩ := List.mem_map.mp hmem
    rw [← (Prod.mk.inj heq).2]
    exact hnames name (List.mem_dedup.mp hname)
  names_nodup := by
    rw [map_tagsNamed]
    exact (List.nodup_dedup names).map fun _ _ h => (Prod.mk.inj h).2

variable [Casing] {q : TransactionQuery} {names : List String}
  {hnames : ∀ name ∈ names, IsTagName name} {description : String}

theorem fits_oneRow (h : ¬q.DatesCross) :
    q.Fits (q.oneRowDb names hnames description).toDb 1 (q.oneRow description) := by
  have hdate : (q.oneRow description).effectivePeriodDate = q.someDate := rfl
  constructor
  · rfl
  · intro accountId hmem
    simp [oneRow, Option.mem_def.mp hmem]
  · intro categoryId hmem
    exact Or.inl (by simp [oneRow, Option.mem_def.mp hmem])
  · intro type hmem
    simp [oneRow, Option.mem_def.mp hmem]
  · intro status hmem
    simp [oneRow, Option.mem_def.mp hmem]
  · intro date hmem
    rw [hdate, someDate, Option.mem_def.mp hmem]
    exact le_refl date.toOrdinal
  · intro date hmem
    rw [hdate, someDate, Option.mem_def.mp hmem]
    cases hfrom : q.dateFrom with
    | none => exact le_refl date.toOrdinal
    | some from' =>
      by_contra hlt
      exact h ⟨from', hfrom, date, hmem, Date.lt_iff.mpr (not_le.mp hlt)⟩

theorem mem_tagNamesOf_oneRow {name : String} :
    name ∈ (q.oneRowDb names hnames description).tagNamesOf 1 (q.oneRow description) ↔
      name ∈ names := by
  rw [TaggedDb.mem_tagNamesOf, ← exists_tagsNamed]
  constructor
  · rintro ⟨j, -, -, tag, htag, horg, hname⟩
    exact ⟨tag, Table.get?_mem htag, horg, hname⟩
  · rintro ⟨tag, htag, horg, hname⟩
    obtain ⟨j, hj, hid, hjtag⟩ := exists_firstTagged.mpr ⟨tag, htag, rfl⟩
    exact ⟨j, hj, hid, tag, hjtag ▸ Table.get?_of_mem htag, horg, hname⟩

theorem passes_oneRow {reads : String → String → Prop} :
    q.Passes reads ((q.oneRowDb names hnames description).tagNamesOf 1 (q.oneRow description)) ↔
      q.Passes reads names := by
  simp only [Passes, mem_tagNamesOf_oneRow]

/-! ### The queries whose list is exact -/

/-- No row passes the filters on dates and tags, in whichever way the names are read. -/
def NothingPasses (q : TransactionQuery) (col : Collation) : Prop :=
  q.DatesCross ∨ ∀ names, (∀ name ∈ names, IsTagName name) →
    ¬q.Passes (HeardAs col) names ∧ ¬q.Passes Means names

/-- The search text has none of the characters that mean something in a pattern, and the database
takes for one of its characters just those that differ in their case. -/
def SearchesCase (q : TransactionQuery) (col : Collation) (lc : LetterCase) : Prop :=
  ∀ text ∈ q.search, Like.Literal text.toList ∧
    ∀ c ∈ text.toList, Like.AgreeOn col.key lc.fold c

variable {col : Collation} {lc : LetterCase}

/-- The query keeps no row it does not ask for, and the other way round, when nothing passes. -/
theorem NothingPasses.keeps_iff (h : q.NothingPasses col) {db : TaggedDb} {org : ℕ}
    {t : Transaction} : q.keeps col db org t = true ↔ q.Selects lc db org t := by
  have hnever : q.Fits db.toDb org t → ¬q.Passes (HeardAs col) (db.tagNamesOf org t) ∧
      ¬q.Passes Means (db.tagNamesOf org t) := by
    rcases h with ⟨a, ha, b, hb, hlt⟩ | hnone
    · intro hfits
      have hle := le_trans (Date.le_iff.mp (hfits.dateFrom a ha)) (Date.le_iff.mp
        (hfits.dateTo b hb))
      exact absurd hle (not_le.mpr (Date.lt_iff.mp hlt))
    · exact fun _ => hnone _ fun _ => db.isTagName_of_mem
  rw [Pfv.keeps_iff]
  exact ⟨fun ⟨hfits, _, hheard⟩ => absurd hheard (hnever hfits).1,
    fun hselects => absurd hselects.tags (hnever hselects.fits).2⟩

omit [Casing] in
/-- A search text is searched up to case just when its pattern matches the texts that contain it up
to case. -/
theorem searchesCase_iff :
    q.SearchesCase col lc ↔ ∀ text ∈ q.search, ∀ s : String,
      col.like ('%' :: text.toList ++ ['%']) s = true ↔ lc.Contains s text := by
  refine forall₂_congr fun text _ => ?_
  rw [← @Like.matches_infix_forall_iff _ _ col.key _ _ lc.one lc.escape]
  constructor
  · exact fun h s => h s.toList
  · intro h s
    have hs := h (String.ofList s)
    rwa [Collation.like, LetterCase.Contains, String.toList_ofList] at hs

/-- A query with its text searched up to case and names heard as they are meant keeps what it asks
for. -/
theorem SearchesCase.keeps_iff (h : q.SearchesCase col lc) (hheard : q.NamesHeard col)
    {db : TaggedDb} {org : ℕ} {t : Transaction} :
    q.keeps col db org t = true ↔ q.Selects lc db org t := by
  have hsearch := searchesCase_iff.mp h
  rw [Pfv.keeps_iff, hheard.passes_iff fun _ => db.isTagName_of_mem]
  constructor
  · rintro ⟨hfits, hmatches, hpasses⟩
    exact ⟨hfits, fun text htext => (hsearch text htext _).mp (hmatches text htext), hpasses⟩
  · rintro ⟨hfits, hcontains, hpasses⟩
    exact ⟨hfits, fun text htext => (hsearch text htext _).mpr (hcontains text htext), hpasses⟩

/-- What exact lists mean for a row that fits the columns. -/
theorem oneRow_iff (hdates : ¬q.DatesCross)
    (hexact : ∀ db org n, 1 ≤ n → n ≤ 200 → ListingExact db col lc org q n)
    (hnames : ∀ name ∈ names, IsTagName name) (description : String) :
    (∀ text ∈ q.search, col.like ('%' :: text.toList ++ ['%']) description = true) ∧
        q.Passes (HeardAs col) names ↔
      (∀ text ∈ q.search, lc.Contains description text) ∧ q.Passes Means names := by
  have hfits : q.Fits (q.oneRowDb names hnames description).toDb 1 (q.oneRow description) :=
    fits_oneRow hdates
  have hrow := (listingExact_iff Nat.one_pos).mp
    (hexact (q.oneRowDb names hnames description) 1 1 le_rfl (by decide)) (q.oneRow description)
    (List.mem_singleton_self _)
  rw [Pfv.keeps_iff, passes_oneRow] at hrow
  constructor
  · rintro ⟨hmatches, hheard⟩
    have hselects := hrow.mp ⟨hfits, hmatches, hheard⟩
    exact ⟨hselects.search, passes_oneRow.mp hselects.tags⟩
  · rintro ⟨hcontains, hmeant⟩
    exact (hrow.mpr ⟨hfits, hcontains, passes_oneRow.mpr hmeant⟩).2

omit [Casing] in
/-- The pattern of a search text matches some description. -/
theorem exists_like (q : TransactionQuery) (col : Collation) :
    ∃ s, ∀ text ∈ q.search, col.like ('%' :: text.toList ++ ['%']) s = true := by
  cases hsearch : q.search with
  | none => exact ⟨"", by simp⟩
  | some text =>
    refine ⟨String.ofList (Like.shortest (Like.parse ('%' :: text.toList ++ ['%']))),
      fun text' htext => ?_⟩
    rw [← Option.some.inj htext, Collation.like, String.toList_ofList]
    exact Like.matches_shortest _

omit [Casing] in
/-- A search text is contained in the row that has it for its description. -/
theorem contains_search {text : String} (h : text ∈ q.search) :
    lc.Contains (q.search.getD "") text := by
  rw [Option.mem_def.mp h]
  exact List.infix_refl _

end TransactionQuery

/-- Reading a query page after page, with any page size the route allows, is exact over every
database just when no row can pass its filters, or its text is searched up to case and it hears the
names of tags as they are meant. -/
theorem listingExact_forall_iff [Casing] (col : Collation) (lc : LetterCase)
    (q : TransactionQuery) :
    (∀ db org n, 1 ≤ n → n ≤ 200 → ListingExact db col lc org q n) ↔
      q.NothingPasses col ∨ q.SearchesCase col lc ∧ q.NamesHeard col := by
  constructor
  · intro hexact
    refine or_iff_not_imp_left.mpr fun hsome => ?_
    rw [TransactionQuery.NothingPasses, not_or] at hsome
    obtain ⟨hdates, hpass⟩ := hsome
    push Not at hpass
    obtain ⟨names, hnames, hone⟩ := hpass
    have hrow := fun {l : List String} (hl : ∀ name ∈ l, IsTagName name) =>
      TransactionQuery.oneRow_iff hdates hexact hl
    have hheard : q.Passes (HeardAs col) names := by
      by_contra hnot
      exact hnot ((hrow hnames (q.search.getD "")).mpr
        ⟨fun _ => TransactionQuery.contains_search, hone hnot⟩).2
    obtain ⟨s, hs⟩ := q.exists_like col
    have hmeant : q.Passes Means names := ((hrow hnames s).mp ⟨hs, hheard⟩).2
    have hsearches : q.SearchesCase col lc := by
      refine TransactionQuery.searchesCase_iff.mpr fun text htext s => ?_
      have hone : ∀ p : String → Prop, (∀ text' ∈ q.search, p text') ↔ p text := fun p => by
        simp [Option.mem_def.mp htext]
      have hboth := hrow hnames s
      rwa [and_iff_left hheard, and_iff_left hmeant, hone, hone] at hboth
    refine ⟨hsearches, TransactionQuery.namesHeard_of_passes (fun names' hnames' => ?_) hnames
      hheard⟩
    have hboth := hrow hnames' (q.search.getD "")
    have hcontains : ∀ text ∈ q.search, lc.Contains (q.search.getD "") text := fun _ =>
      TransactionQuery.contains_search
    rwa [and_iff_right fun text htext =>
        (TransactionQuery.searchesCase_iff.mp hsearches text htext _).mpr (hcontains text htext),
      and_iff_right hcontains] at hboth
  · rintro (hnothing | ⟨hsearches, hheard⟩) db org n hn -
    · exact (listingExact_iff hn).mpr fun _ _ => hnothing.keeps_iff
    · exact (listingExact_iff hn).mpr fun _ _ => hsearches.keeps_iff hheard

/-! ### Two requests that are not served exactly -/

/-- The case of the letters from A to Z. -/
def asciiCase : LetterCase where
  fold := Char.toLower
  one := by decide
  escape := by decide

attribute [local instance] asciiCasing

def sampleDinner : Transaction where
  id := 1
  orgId := 1
  accountId := 1
  categoryId := 1
  description := "Dinner"
  amount := 4000
  type := .expense
  status := .pending
  date := .of 2026 3 1
  settledDate := none

def sampleShop : Transaction :=
  { sampleDinner with id := 2, description := "Shop 1005" }

/-- A dinner with the tag "dining out", and a row whose description has no per cent sign. -/
def sampleTagged : TaggedDb where
  accountTypes := .empty
  accounts := .empty
  categories := .empty
  transactions := (Table.empty.insert sampleDinner).insert sampleShop
  recurring := .empty
  importBatches := .empty
  tags := Table.empty.insert
    { orgId := 1, name := "Dining out", nameNormalized := "dining out" }
  transactionTags := Table.empty.insert { transactionId := 1, tagId := 1 }
  isTagName tag htag := by
    rw [List.mem_singleton.mp htag]
    exact ⟨"Dining  out", by decide +kernel⟩
  names_nodup := List.nodup_singleton _

/-- Asked for the tag as it was typed, with two spaces, the list is empty; asked for "100%", it has
a row without a per cent sign. -/
theorem sampleTagged_not_exact :
    (listTransactionsRoute sampleTagged caseInsensitive 1 { tags := some "Dining  out" } = [] ∧
      ¬ListingExact sampleTagged caseInsensitive asciiCase 1 { tags := ["Dining  out"] } 50) ∧
    ((listTransactionsRoute sampleTagged caseInsensitive 1 { search := some "100%" }).map
        (·.description) = ["Shop 1005"] ∧
      ¬ListingExact sampleTagged caseInsensitive asciiCase 1 { search := some "100%" } 50) := by
  refine ⟨⟨by decide +kernel, fun h => ?_⟩, by decide +kernel, fun h => ?_⟩
  · -- the dinner has the tag, but the query does not keep it
    have hrow := (listingExact_iff (by decide)).mp h sampleDinner (by decide +kernel)
    have hselects : TransactionQuery.Selects { tags := ["Dining  out"] } asciiCase sampleTagged 1
        sampleDinner := by
      refine ⟨⟨rfl, by simp, by simp, by simp, by simp, by simp, by simp⟩, by simp,
        fun _ requested hr => ?_, by simp [TransactionQuery.excluded]⟩
      have hname : requested = "Dining  out" :=
        List.mem_singleton.mp (List.mem_of_mem_filter hr)
      subst hname
      exact ⟨"dining out", by decide +kernel, by decide +kernel⟩
    exact absurd (hrow.mpr hselects) (by decide +kernel)
  · -- the query keeps the shop, which does not contain the text
    have hrow := (listingExact_iff (by decide)).mp h sampleShop (by decide +kernel)
    have hcontains := (hrow.mp (by decide +kernel)).search "100%" rfl
    exact absurd hcontains (by decide +kernel)

end Pfv
