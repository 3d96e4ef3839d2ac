import Pfv.Ledger.Listing
import Pfv.Services.DescriptionSuggestions

/-!
# The suggestions of descriptions

The escaped query matches what contains it literally, and the groups come in the right order: within
a group either every row begins with the query or none does. The two queries are joined by the exact
text of a description, though, and each takes that text from any row of a group. Where the rows of a
group differ in spelling, a suggestion may get a category that is used less than another one, or
none, and then the description is left out.

## Main definitions

* `containing`, `SuggestsGroups`: the groups of descriptions that contain the query, and a list that
  suggests them exactly.
* `SpellingsAgree`: every spelling that may be suggested is the only one of a most used category.

## Main results

* `suggestsGroups_iff`: the suggestions are exact just when the spellings agree.
-/

namespace Pfv

/-! ### Exact suggestions -/

/-- A text contains another one, with the characters the database takes for the same. -/
def Collation.Contains (col : Collation) (s text : String) : Prop :=
  text.toList.map col.key <:+: s.toList.map col.key

instance (col : Collation) (s text : String) : Decidable (col.Contains s text) :=
  inferInstanceAs (Decidable (_ <:+: _))

section Exact

variable (db : Db) (col : Collation) (org : ℕ) (type : TransactionType) (q : Option String)

/-- The transactions whose descriptions contain the query. -/
def containing : List Transaction :=
  (db.rowsOfType org type).filter fun t => col.Contains t.description (q.getD "")

/-- The groups of their descriptions. -/
def containingKeys : List (List Char) :=
  (containing db col org type q).map (col.keysOf ·.description)

/-- The transactions of a group. -/
def containingGroup (k : List Char) : List Transaction :=
  groupOf (col.keysOf ·.description) (containing db col org type q) k

/-- The order of the suggestions: whether the description begins with the query, the number of its
uses and its latest date. -/
def suggestionRank (k : List Char) : ℕ ×ₗ ℕ ×ₗ ℕ :=
  toLex (if col.keysOf (q.getD "") <+: k then 1 else 0,
    toLex ((containingGroup db col org type q k).length,
      latestOf (containingGroup db col org type q k)))

/-- How often a category is used in a group. -/
def categoryUses (k : List Char) (c : ℕ) : ℕ :=
  ((containingGroup db col org type q k).filter (·.categoryId = c)).length

/-- No category is used more often in a group. -/
def MostUsed (k : List Char) (c : ℕ) : Prop :=
  ∀ c', categoryUses db col org type q k c' ≤ categoryUses db col org type q k c

/-- The suggestion is the one of a group. -/
structure SuggestionOf (k : List Char) (s : DescriptionSuggestion) : Prop where
  description : ∃ t ∈ containingGroup db col org type q k, t.description = s.description
  useCount : s.useCount = (containingGroup db col org type q k).length
  lastUsed : ∃ t ∈ containingGroup db col org type q k, t.date = s.lastUsed
  latest : ∀ t ∈ containingGroup db col org type q k, t.date ≤ s.lastUsed
  category : ∃ c, db.category? s.categoryId org = some c ∧ c.name = s.categoryName
  mostUsed : MostUsed db col org type q k s.categoryId

/-- The list has a suggestion for each group in their order, as many as the limit allows. -/
def SuggestsGroups (limit : ℕ) (out : List DescriptionSuggestion) : Prop :=
  ∃ groups,
    SortsGroups (containingKeys db col org type q) (suggestionRank db col org type q) groups ∧
    List.Forall₂ (SuggestionOf db col org type q) (groups.take limit) out

/-- Whichever way a description is spelled in a group that may be suggested, there is a most used
category of the group in which it is spelled no other way. -/
def SpellingsAgree (limit : ℕ) : Prop :=
  ∀ k ∈ containingKeys db col org type q,
    (ahead (containingKeys db col org type q) (suggestionRank db col org type q) k).length < limit →
    ∀ t ∈ containingGroup db col org type q k, ∃ c, MostUsed db col org type q k c ∧
      ∀ t' ∈ containingGroup db col org type q k, t'.categoryId = c → t'.description = t.description

end Exact

/-! ### The first query -/

section Queries

variable {db : Db} {col : Collation} {org : ℕ} {type : TransactionType} {q : Option String}

theorem keysOf_nil_iff (col : Collation) : queryText q = [] ↔ col.keysOf (q.getD "") = [] := by
  rw [queryText, Collation.keysOf, List.map_eq_nil_iff]

theorem descriptionLike_infix {t : Transaction} :
    t.descriptionLike col ('%' :: normalizePrefix (queryText q) ++ ['%']) = true ↔
      col.Contains t.description (q.getD "") := by
  rw [Transaction.descriptionLike, Collation.like, List.cons_append, Like.parse, normalizePrefix,
    Like.parse_escaped]
  exact Like.matches_any_chars_any

theorem descriptionLike_begins {t : Transaction} :
    t.descriptionLike col (normalizePrefix (queryText q) ++ ['%']) = true ↔
      col.keysOf (q.getD "") <+: col.keysOf t.description := by
  rw [Transaction.descriptionLike, Collation.like, normalizePrefix, Like.parse_escaped]
  exact Like.matches_chars_any

/-- The first query is over the rows that contain the query. -/
theorem suggestibleRows_eq : suggestibleRows db col org type q = containing db col org type q := by
  refine List.filter_congr fun t _ => ?_
  rw [Bool.eq_iff_iff, Bool.or_eq_true, decide_eq_true_eq, decide_eq_true_eq, descriptionLike_infix]
  refine or_iff_right_of_imp fun hempty => ?_
  have hkeys : (q.getD "").toList.map col.key = [] := (keysOf_nil_iff col).mp hempty
  rw [Collation.Contains, hkeys]
  exact List.nil_infix

theorem suggestibleGroup_eq (k : List Char) :
    suggestibleGroup db col org type q k = containingGroup db col org type q k := by
  rw [suggestibleGroup, suggestibleRows_eq, containingGroup]

theorem mem_containingGroup {k : List Char} {t : Transaction} :
    t ∈ containingGroup db col org type q k ↔
      t ∈ db.rowsOfType org type ∧ col.keysOf (q.getD "") <:+: k ∧
      col.keysOf t.description = k := by
  rw [containingGroup, mem_groupOf, containing, List.mem_filter, decide_eq_true_eq, and_assoc]
  refine and_congr_right fun _ => and_congr_left fun hkey => ?_
  rw [← hkey]
  rfl

theorem containingGroup_nonempty {k : List Char} (hk : k ∈ containingKeys db col org type q) :
    ∃ t, t ∈ containingGroup db col org type q k := by
  obtain ⟨t, ht, rfl⟩ := List.mem_map.mp hk
  exact ⟨t, mem_groupOf.mpr ⟨ht, rfl⟩⟩

/-- The prefix rank of a group is its size or zero. -/
theorem prefixRank_eq (k : List Char) :
    prefixRank db col org type q k =
      if col.keysOf (q.getD "") = [] then 0
      else if col.keysOf (q.getD "") <+: k then (containingGroup db col org type q k).length
      else 0 := by
  have hsum : ((suggestibleGroup db col org type q k).map fun t =>
      if t.descriptionLike col (normalizePrefix (queryText q) ++ ['%']) then 1 else 0).sum =
        ((containingGroup db col org type q k).map fun _ =>
          if col.keysOf (q.getD "") <+: k then 1 else 0).sum := by
    rw [suggestibleGroup_eq]
    refine congrArg List.sum (List.map_congr_left fun t ht => ?_)
    rw [← (mem_containingGroup.mp ht).2.2]
    simp only [descriptionLike_begins]
  rw [prefixRank, hsum, List.map_const', List.sum_replicate, smul_eq_mul]
  simp only [keysOf_nil_iff col, mul_ite, mul_one, mul_zero]

/-- The database orders the groups as the suggestions are ordered. -/
theorem descriptionRank_le_iff {k k' : List Char} (hk : k ∈ containingKeys db col org type q)
    (hk' : k' ∈ containingKeys db col org type q) :
    descriptionRank db col org type q k' ≤ descriptionRank db col org type q k ↔
      suggestionRank db col org type q k' ≤ suggestionRank db col org type q k := by
  obtain ⟨t, ht⟩ := containingGroup_nonempty hk
  obtain ⟨t', ht'⟩ := containingGroup_nonempty hk'
  have hpos := List.length_pos_of_mem ht
  have hpos' := List.length_pos_of_mem ht'
  simp only [descriptionRank, suggestionRank, suggestibleGroup_eq, prefixRank_eq,
    Prod.Lex.toLex_le_toLex]
  generalize (containingGroup db col org type q k).length = uses at *
  generalize (containingGroup db col org type q k').length = uses' at *
  by_cases hempty : col.keysOf (q.getD "") = []
  · simp [hempty]
  · by_cases hprefix : col.keysOf (q.getD "") <+: k <;>
      by_cases hprefix' : col.keysOf (q.getD "") <+: k' <;>
      simp only [hempty, hprefix, hprefix', if_true, if_false, true_and] <;>
      omega

/-- A list of groups the first query may sort by is one of the suggestions, and the other way. -/
theorem sortsGroups_iff {groups : List (List Char)} :
    SortsGroups ((suggestibleRows db col org type q).map (col.keysOf ·.description))
        (descriptionRank db col org type q) groups ↔
      SortsGroups (containingKeys db col org type q) (suggestionRank db col org type q) groups := by
  rw [suggestibleRows_eq, ← containingKeys]
  exact ⟨fun h => h.congr fun k hk k' hk' => descriptionRank_le_iff hk hk',
    fun h => h.congr fun k hk k' hk' => (descriptionRank_le_iff hk hk').symm⟩

/-- A row may describe a group with the text of any transaction in it. -/
theorem exists_descriptionRow {group : List Transaction} {t : Transaction} (ht : t ∈ group) :
    ∃ r : DescriptionRow, r.Of group ∧ r.description = t.description := by
  obtain ⟨last, hlast, hmax⟩ := group.toFinset.exists_max_image (·.date.toOrdinal)
    ⟨t, List.mem_toFinset.mpr ht⟩
  refine ⟨⟨t.description, group.length, last.date⟩, ?_, rfl⟩
  exact
    { description := ⟨t, ht, rfl⟩
      useCount := rfl
      lastUsed := ⟨last, List.mem_toFinset.mp hlast, rfl⟩
      latest := fun t' ht' => hmax t' (List.mem_toFinset.mpr ht') }

/-! ### The second query -/

variable {descriptions : List String} {catRows : List CategoryRow} {k : List Char}

theorem mem_pairedRows {t : Transaction} : t ∈ pairedRows db col org type descriptions ↔
    t ∈ db.rowsOfType org type ∧ ∃ d ∈ descriptions, col.keysOf d = col.keysOf t.description := by
  simp only [pairedRows, List.mem_filter, List.any_eq_true, decide_eq_true_eq]

/-- The second query sees the whole group of a description that the first one returned. -/
theorem groupOf_pairedRows {d : String} (hd : d ∈ descriptions)
    (hcontains : col.keysOf (q.getD "") <:+: col.keysOf d) (c : ℕ) :
    groupOf (pairOf col) (pairedRows db col org type descriptions) (col.keysOf d, c) =
      (containingGroup db col org type q (col.keysOf d)).filter (·.categoryId = c) := by
  rw [groupOf, pairedRows, List.filter_filter, containingGroup, groupOf, containing,
    List.filter_filter, List.filter_filter]
  refine List.filter_congr fun t _ => ?_
  rw [Bool.eq_iff_iff]
  simp only [pairOf, Prod.mk.injEq, Bool.and_eq_true, decide_eq_true_eq, List.any_eq_true]
  constructor
  · rintro ⟨⟨hkey, hcategory⟩, -⟩
    refine ⟨⟨hcategory, hkey⟩, ?_⟩
    rw [← hkey] at hcontains
    exact hcontains
  · rintro ⟨⟨hcategory, hkey⟩, -⟩
    exact ⟨⟨hkey, hcategory⟩, d, hd, hkey.symm⟩

/-- The rows of the second query rank by how often their category is used. -/
theorem categoryUses_le_of_pairRank_le {d : String} (hd : d ∈ descriptions)
    (hcontains : col.keysOf (q.getD "") <:+: col.keysOf d) {c c' : ℕ}
    (hle : pairRank col (pairedRows db col org type descriptions) (col.keysOf d, c) ≤
      pairRank col (pairedRows db col org type descriptions) (col.keysOf d, c')) :
    categoryUses db col org type q (col.keysOf d) c ≤
      categoryUses db col org type q (col.keysOf d) c' := by
  simp only [pairRank, groupOf_pairedRows hd hcontains, Prod.Lex.toLex_le_toLex, lt_irrefl,
    false_or, true_and] at hle
  rcases hle with hlt | ⟨heq, -⟩
  · exact hlt.le
  · exact heq.le

/-- The first row of a description in the second query has a category that is used as often as any
that has only this spelling. -/
theorem topCategory_of_mostUsed (h : CategoryQuery db col org type descriptions catRows)
    {t : Transaction} (ht : t ∈ containingGroup db col org type q k)
    (hmem : t.description ∈ descriptions) {c : ℕ} (hmost : MostUsed db col org type q k c)
    (hspelled : ∀ t' ∈ containingGroup db col org type q k, t'.categoryId = c →
      t'.description = t.description) :
    ∃ c', topCategory catRows t.description = some c' ∧ MostUsed db col org type q k c' ∧
      ∃ t' ∈ db.rowsOfType org type, t'.categoryId = c' := by
  obtain ⟨pairs, hpairs, hrows⟩ := h
  obtain ⟨-, hcontains, rfl⟩ := mem_containingGroup.mp ht
  -- the category is used, at least as often as that of the row
  have hpos : 0 < categoryUses db col org type q (col.keysOf t.description) c :=
    lt_of_lt_of_le (List.length_pos_of_mem (List.mem_filter.mpr ⟨ht, decide_eq_true rfl⟩))
      (hmost t.categoryId)
  obtain ⟨t', ht'⟩ := List.exists_mem_of_length_pos hpos
  rw [← groupOf_pairedRows hmem hcontains, mem_groupOf] at ht'
  have hpair : (col.keysOf t.description, c) ∈ pairs :=
    (hpairs.mem_iff _).mpr (List.mem_map.mpr ⟨t', ht'⟩)
  obtain ⟨pair, hpair', r, hr, hfind, hle⟩ := find?_of_forall₂ hrows hpairs.sorted hpair
    (p := fun r : CategoryRow => r.description = t.description) fun r hr => by
      obtain ⟨t'', ht'', hdescription⟩ := hr.description
      rw [groupOf_pairedRows hmem hcontains, List.mem_filter, decide_eq_true_eq] at ht''
      rw [← hdescription, decide_eq_true_eq]
      exact hspelled t'' ht''.1 ht''.2
  -- the row that is found is of the same group
  have hsame : r.description = t.description := by simpa using List.find?_some hfind
  obtain ⟨t'', ht'', hdescription⟩ := hr.description
  obtain ⟨hrow, hkey⟩ := mem_groupOf.mp ht''
  have hfst : pair = (col.keysOf t.description, r.categoryId) := by
    rw [← hsame, ← hdescription, hr.categoryId, ← hkey]
    rfl
  rw [hfst] at hle
  have huses := categoryUses_le_of_pairRank_le hmem hcontains hle
  refine ⟨r.categoryId, by rw [topCategory, hfind]; rfl, fun c' => (hmost c').trans huses, t'',
    (mem_pairedRows.mp hrow).1, ?_⟩
  rw [hr.categoryId, ← hkey]
  rfl

/-- When every most used category of a group has another spelling, the second query may use it, and
then the spelling gets none of these categories. -/
theorem exists_categoryQuery {d : String}
    (hother : ∀ c, MostUsed db col org type q (col.keysOf d) c →
      ∃ t ∈ containingGroup db col org type q (col.keysOf d),
        t.categoryId = c ∧ t.description ≠ d) :
    ∃ catRows, CategoryQuery db col org type descriptions catRows ∧
      ∀ c, topCategory catRows d = some c → ¬MostUsed db col org type q (col.keysOf d) c := by
  obtain ⟨pairs, hpairs, -⟩ := exists_sortsGroups_first
    ((pairedRows db col org type descriptions).map (pairOf col))
    (pairRank col (pairedRows db col org type descriptions)) ([], 0)
  have hrow : ∀ pair ∈ pairs, ∃ r : CategoryRow,
      r.Of col (pairedRows db col org type descriptions) pair ∧
      (pair.1 = col.keysOf d → MostUsed db col org type q (col.keysOf d) pair.2 →
        r.description ≠ d) := by
    intro pair hpair
    obtain ⟨t, ht, rfl⟩ := List.mem_map.mp ((hpairs.mem_iff pair).mp hpair)
    by_cases hbad : col.keysOf t.description = col.keysOf d ∧
        MostUsed db col org type q (col.keysOf d) t.categoryId
    · obtain ⟨hkey, hmost⟩ := hbad
      obtain ⟨t', ht', hcategory, hne⟩ := hother _ hmost
      obtain ⟨hrow', -, hkey'⟩ := mem_containingGroup.mp ht'
      obtain ⟨-, d', hd', hsame⟩ := mem_pairedRows.mp ht
      refine ⟨⟨t'.description, t.categoryId⟩, ⟨⟨t', mem_groupOf.mpr ⟨mem_pairedRows.mpr
        ⟨hrow', d', hd', ?_⟩, ?_⟩, rfl⟩, rfl⟩, fun _ _ => hne⟩
      · rw [hsame, hkey, hkey']
      · rw [pairOf, pairOf, hkey', hkey, hcategory]
    · exact ⟨⟨t.description, t.categoryId⟩, ⟨⟨t, mem_groupOf.mpr ⟨ht, rfl⟩, rfl⟩, rfl⟩,
        fun hkey hmost => absurd ⟨hkey, hmost⟩ hbad⟩
  obtain ⟨catRows, hcatRows⟩ := exists_forall₂ hrow
  refine ⟨catRows, ⟨pairs, hpairs, hcatRows.imp fun _ _ h => h.1⟩, fun c htop hmost => ?_⟩
  obtain ⟨r, hfind, rfl⟩ := Option.map_eq_some_iff.mp htop
  have hsame : r.description = d := by simpa using List.find?_some hfind
  obtain ⟨pair, -, hof, hne⟩ := exists_of_mem_right hcatRows (List.mem_of_find?_eq_some hfind)
  obtain ⟨t, ht, hdescription⟩ := hof.description
  have hkey : pair.1 = col.keysOf d := by
    rw [← (mem_groupOf.mp ht).2, ← hsame, ← hdescription]
    rfl
  exact hne hkey (hof.categoryId ▸ hmost) hsame

end Queries

/-! ### The suggestions -/

section Suggestions

variable {db : BookedDb} {col : Collation} {org : ℕ} {type : TransactionType} {q : Option String}
  {limit : ℕ}

/-- Where the spellings agree, the suggestions are exact. -/
theorem SpellingsAgree.suggestsGroups (h : SpellingsAgree db.toDb col org type q limit)
    {out : List DescriptionSuggestion}
    (hout : SuggestsDescriptions db.toDb col org type q limit out) :
    SuggestsGroups db.toDb col org type q limit out := by
  obtain ⟨rows, catRows, ⟨groups, hgroups, hrows⟩, hcategories, rfl⟩ := hout
  rw [sortsGroups_iff] at hgroups
  refine ⟨groups, hgroups, forall₂_filterMap hrows fun k hk r hrmem hr => ?_⟩
  rw [suggestibleGroup_eq] at hr
  obtain ⟨t, ht, hdescription⟩ := hr.description
  obtain ⟨c, hmost, hspelled⟩ := h k ((hgroups.mem_iff k).mp (List.mem_of_mem_take hk))
    (hgroups.length_ahead_lt hk) t ht
  have hmem : t.description ∈ rows.map (·.description) :=
    hdescription ▸ List.mem_map_of_mem hrmem
  obtain ⟨c', htop, hmost', t', ht', rfl⟩ :=
    topCategory_of_mostUsed hcategories ht hmem hmost hspelled
  obtain ⟨hrow, hkeep⟩ := List.mem_filter.mp ht'
  obtain ⟨cat, hcat⟩ := Option.isSome_iff_exists.mp (db.booked t' hrow)
  rw [(of_decide_eq_true hkeep).1] at hcat
  rw [hdescription] at htop
  have hshape : shapeSuggestion db.toDb org catRows r = some
      { description := r.description
        categoryId := t'.categoryId
        categoryName := cat.name
        useCount := r.useCount
        lastUsed := r.lastUsed } := by
    rw [shapeSuggestion, htop, Option.bind_some, hcat, Option.map_some]
  exact ⟨_, hshape,
    { description := hr.description
      useCount := hr.useCount
      lastUsed := hr.lastUsed
      latest := hr.latest
      category := ⟨cat, hcat, rfl⟩
      mostUsed := hmost' }⟩

/-- Where they do not, the database may answer in such a way that a suggestion is wrong or
missing. -/
theorem exists_not_suggestsGroups (h : ¬SpellingsAgree db.toDb col org type q limit) :
    ∃ out, SuggestsDescriptions db.toDb col org type q limit out ∧
      ¬SuggestsGroups db.toDb col org type q limit out := by
  rw [SpellingsAgree] at h
  push Not at h
  obtain ⟨k, hk, hahead, t, ht, hother⟩ := h
  obtain ⟨-, -, rfl⟩ := mem_containingGroup.mp ht
  obtain ⟨groups, hgroups, htake⟩ := exists_sortsGroups_mem_take hk hahead
  -- the first query spells the group as the row does
  have hrow : ∀ k' ∈ groups.take limit, ∃ r : DescriptionRow,
      r.Of (suggestibleGroup db.toDb col org type q k') ∧
      (k' = col.keysOf t.description → r.description = t.description) := by
    intro k' hk'
    rw [suggestibleGroup_eq]
    by_cases hkey : k' = col.keysOf t.description
    · obtain ⟨r, hr, hdescription⟩ := exists_descriptionRow ht
      exact ⟨r, hkey ▸ hr, fun _ => hdescription⟩
    · obtain ⟨t', ht'⟩ := containingGroup_nonempty
        ((hgroups.mem_iff k').mp (List.mem_of_mem_take hk'))
      obtain ⟨r, hr, -⟩ := exists_descriptionRow ht'
      exact ⟨r, hr, fun h => absurd h hkey⟩
  obtain ⟨rows, hrows⟩ := exists_forall₂ hrow
  obtain ⟨catRows, hcategories, htop⟩ : ∃ catRows,
      CategoryQuery db.toDb col org type (rows.map (·.description)) catRows ∧
      ∀ c, topCategory catRows t.description = some c →
        ¬MostUsed db.toDb col org type q (col.keysOf t.description) c :=
    exists_categoryQuery hother
  have hfirst : DescriptionQuery db.toDb col org type q limit rows :=
    ⟨groups, sortsGroups_iff.mpr hgroups, hrows.imp fun _ _ h => h.1⟩
  refine ⟨shapeSuggestions db.toDb org rows catRows, ⟨rows, catRows, hfirst, hcategories, rfl⟩, ?_⟩
  rintro ⟨groups', hgroups', hout⟩
  -- no row is left out
  have hperm : groups'.length = groups.length :=
    ((List.perm_ext_iff_of_nodup hgroups'.nodup hgroups.nodup).mpr fun k' =>
      (hgroups'.mem_iff k').trans (hgroups.mem_iff k').symm).length_eq
  have hlength : (shapeSuggestions db.toDb org rows catRows).length = rows.length := by
    rw [← hout.length_eq, ← hrows.length_eq, List.length_take, List.length_take, hperm]
  obtain ⟨r, hr, -, hspelled⟩ := exists_of_mem_left hrows htake
  have hsome := List.filterMap_length_eq_length.mp hlength r hr
  obtain ⟨s, hs⟩ := Option.isSome_iff_exists.mp hsome
  obtain ⟨k', hk', hof⟩ := exists_of_mem_right hout (List.mem_filterMap.mpr ⟨r, hr, hs⟩)
  -- its category is not used most
  obtain ⟨c, hc, hshape⟩ := Option.bind_eq_some_iff.mp hs
  obtain ⟨cat, hcat, rfl⟩ := Option.map_eq_some_iff.mp hshape
  rw [hspelled rfl] at hc
  obtain ⟨t', ht', hdescription⟩ := hof.description
  have hkey : k' = col.keysOf t.description := by
    rw [← (mem_containingGroup.mp ht').2.2, hdescription, hspelled rfl]
  exact htop c hc (hkey ▸ hof.mostUsed)

end Suggestions

/-! ### A coffee in two spellings -/

def sampleCoffee (description : String) (categoryId : ℕ) : Transaction :=
  { sampleDinner with id := 0, description := description, categoryId := categoryId }

/-- A coffee on a trip, and two at home that are spelled differently. -/
def sampleCafe : BookedDb where
  accountTypes := .empty
  accounts := .empty
  categories := (Table.empty.insert { orgId := 1, name := "Food" }).insert
    { orgId := 1, name := "Travel" }
  transactions := ((Table.empty.insert (sampleCoffee "Coffee" 2)).insert
    (sampleCoffee "coffee" 1)).insert (sampleCoffee "coffee" 1)
  recurring := .empty
  importBatches := .empty
  booked := by decide +kernel

end Pfv
