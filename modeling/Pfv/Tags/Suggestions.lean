import Pfv.Services.TagSuggestions

/-!
# The suggestions of tags

The three passes of the suggestions, each cut to a page, give the head of the three rankings
together without repeated names: a page is always as long as the limit. The rankings are over the
names that match a pattern, though, and a prefix with signs of a pattern in it matches names that do
not begin with it. Whatever the prefix, what is suggested is an own tag or a shared one.

## Main definitions

* `fullRanking`: the rankings of the three passes together.
* `SuggestsHead`: the suggestions are the head of the ranking over the names with the prefix, and
  nothing else is disclosed.

## Main results

* `suggestTags_eq`: the suggestions are the head of the rankings over the pattern.
* `suggestsHead_forall_iff`: the prefixes whose suggestions are right in every database.
-/

namespace Pfv

/-! ### The rankings -/

section Rankings

variable (store : TagStore) (org : ℕ) (categoryId : Option ℕ) (like : String → Bool)

/-- The rankings of the passes one after the other, without limits. -/
def rankings : List (List RankedTag) :=
  (categoryId.map fun c => store.categoryRanking org c like).toList ++
    store.recentRanking org like ::
      (if store.sharesTagData org then [store.dictionaryRanking like] else [])

/-- The rankings together, without names that occurred earlier. -/
def fullRanking : List RankedTag :=
  distinctBy RankedTag.nameNormalized [] (rankings store org categoryId like).flatten

end Rankings

/-- A pass fills the suggestions up with the new names of its ranking. -/
theorem addPass_eq {limit : ℕ} {suggestions R : List RankedTag} (h : suggestions.length ≤ limit)
    (hR : (R.map (·.nameNormalized)).Nodup) :
    TagStore.addPass limit suggestions R =
      (suggestions ++
        distinctBy RankedTag.nameNormalized (suggestions.map (·.nameNormalized)) R).take
        limit := by
  rw [TagStore.addPass]
  split_ifs with hfull
  · rw [List.take_append_of_le_length hfull, List.take_of_length_le h]
  · rw [addPage_take (not_le.mp hfull) hR, List.take_append, List.take_of_length_le h]

/-- Passes over several rankings fill the suggestions up with the new names of all of them. -/
theorem foldl_addPass {limit : ℕ} {suggestions : List RankedTag} {Rs : List (List RankedTag)}
    (h : suggestions.length ≤ limit) (hRs : ∀ R ∈ Rs, (R.map (·.nameNormalized)).Nodup) :
    Rs.foldl (TagStore.addPass limit) suggestions =
      (suggestions ++ distinctBy RankedTag.nameNormalized (suggestions.map (·.nameNormalized))
        Rs.flatten).take limit := by
  induction Rs generalizing suggestions with
  | nil => simp [distinctBy, List.take_of_length_le h]
  | cons R Rs ih =>
    obtain ⟨hR, hRs⟩ := List.forall_mem_cons.mp hRs
    set new := distinctBy RankedTag.nameNormalized (suggestions.map (·.nameNormalized)) R with hnew
    rw [List.foldl_cons, addPass_eq h hR, ih (List.length_take_le limit _) hRs, List.flatten_cons,
      distinctBy_append, ← hnew, ← List.append_assoc]
    by_cases hroom : (suggestions ++ new).length ≤ limit
    · rw [List.take_of_length_le hroom]
      congr 2
      exact distinctBy_congr (fun b => by simp [or_comm]) _
    · -- the suggestions are full, and what comes after them does not matter
      have hfull : limit ≤ (suggestions ++ new).length := by omega
      have htake : ((suggestions ++ new).take limit).length = limit := List.length_take_of_le hfull
      rw [List.take_append_of_le_length hfull, List.take_append_of_le_length htake.ge,
        List.take_of_length_le htake.le]

/-- The suggestions are those of the passes over the rankings. -/
theorem suggestTags_eq_foldl [Casing] (store : TagStore) (org : ℕ) (col : Collation)
    (pre : Option String) (categoryId : Option ℕ) (limit : ℕ) :
    store.suggestTags org col pre categoryId limit =
      ((rankings store org categoryId (col.like (likeClause pre))).foldl (TagStore.addPass limit)
        []).map (·.suggestion) := by
  rw [TagStore.suggestTags, rankings]
  cases categoryId <;> by_cases hshares : store.sharesTagData org = true <;> simp [hshares]

/-- A pass adds suggestions of its ranking only. -/
theorem mem_addPass {limit : ℕ} {suggestions R : List RankedTag} {r : RankedTag}
    (h : r ∈ TagStore.addPass limit suggestions R) : r ∈ suggestions ∨ r ∈ R := by
  rw [TagStore.addPass] at h
  split_ifs at h with hfull
  · exact Or.inl h
  · rw [addPage_eq (not_le.mp hfull), List.mem_append] at h
    exact h.imp_right fun h =>
      List.mem_of_mem_take (mem_of_mem_distinctBy (List.mem_of_mem_take h))

theorem mem_foldl_addPass {limit : ℕ} {suggestions : List RankedTag} {Rs : List (List RankedTag)}
    {r : RankedTag} (h : r ∈ Rs.foldl (TagStore.addPass limit) suggestions) :
    r ∈ suggestions ∨ ∃ R ∈ Rs, r ∈ R := by
  induction Rs generalizing suggestions with
  | nil => exact Or.inl h
  | cons R Rs ih =>
    rcases ih h with h | ⟨R', hR', h⟩
    · exact (mem_addPass h).imp_right fun h => ⟨R, List.mem_cons_self, h⟩
    · exact Or.inr ⟨R', List.mem_cons_of_mem R hR', h⟩

section Passes

variable [Casing] {db : TagDb} {org : ℕ} {like : String → Bool}

/-- The names of an organisation's tags are distinct. -/
theorem ownNames_nodup (p : Tag → Bool) (hp : ∀ tag, p tag = true → tag.orgId = org) :
    ((db.tags.rows.filter p).map (·.nameNormalized)).Nodup := by
  have hpairs : ((db.tags.rows.filter p).map fun tag => (tag.orgId, tag.nameNormalized)).Nodup :=
    (List.filter_sublist.map _).nodup db.names_nodup
  have hnames : ((db.tags.rows.filter p).map fun tag => (tag.orgId, tag.nameNormalized)) =
      ((db.tags.rows.filter p).map (·.nameNormalized)).map fun name => (org, name) := by
    rw [List.map_map]
    exact List.map_congr_left fun tag htag => by
      rw [Function.comp_apply, hp tag (List.mem_filter.mp htag).2]
  rw [hnames] at hpairs
  exact hpairs.of_map _

/-- No ranking has a name twice. -/
theorem rankings_nodup {categoryId : Option ℕ} {R : List RankedTag}
    (hR : R ∈ rankings db.toTagStore org categoryId like) : (R.map (·.nameNormalized)).Nodup := by
  have hsort : ∀ l : List RankedTag, (l.map (·.nameNormalized)).Nodup →
      ((l.insertionSort RankedTag.RankedFirst).map (·.nameNormalized)).Nodup :=
    fun l hl => ((List.perm_insertionSort _ l).map _).nodup_iff.mpr hl
  rw [rankings, List.mem_append, List.mem_cons] at hR
  rcases hR with hR | rfl | hR
  · obtain ⟨c, -, rfl⟩ := Option.map_eq_some_iff.mp (Option.mem_toList.mp hR)
    refine hsort _ ?_
    rw [List.map_map]
    exact ownNames_nodup _ fun tag htag => (of_decide_eq_true htag).1
  · refine hsort _ ?_
    rw [List.map_map]
    exact ownNames_nodup _ fun tag htag => (of_decide_eq_true htag).1
  · split_ifs at hR with hshares
    · rw [List.mem_singleton.mp hR]
      refine hsort _ ?_
      rw [List.map_map]
      exact (List.filter_sublist.map _).nodup db.entries_nodup
    · exact absurd hR List.not_mem_nil

/-- The suggestions are the head of the rankings over the pattern. -/
theorem suggestTags_eq (col : Collation) (pre : Option String) (categoryId : Option ℕ)
    (limit : ℕ) :
    db.suggestTags org col pre categoryId limit =
      ((fullRanking db.toTagStore org categoryId (col.like (likeClause pre))).take limit).map
        (·.suggestion) := by
  rw [suggestTags_eq_foldl, foldl_addPass (Nat.zero_le limit) fun R hR => rankings_nodup hR]
  rfl

end Passes

/-! ### What is suggested -/

/-- A name begins with the prefix, taken literally. -/
def beginsWith [Casing] (pre : Option String) (name : String) : Bool :=
  normalizedPrefix pre <+: name.toList

/-- A suggestion discloses nothing: an own tag, or a tag of the dictionary that is seeded or has
enough contributors, where the organisation has opted in. -/
def Disclosed (store : TagStore) (org : ℕ) (s : TagSuggestion) : Prop :=
  match s.source with
  | .sharedDictionary => store.sharesTagData org = true ∧
      ∃ e ∈ store.dictionary.rows, e.nameNormalized = s.name ∧ e.isShared
  | _ => ∃ tag ∈ store.tags.rows, tag.orgId = org ∧ tag.name = s.name

/-- The suggestions are the head of the full ranking over the names that begin with the prefix, and
each may be disclosed. -/
structure SuggestsHead [Casing] (db : TagDb) (col : Collation) (org : ℕ) (pre : Option String)
    (categoryId : Option ℕ) (limit : ℕ) : Prop where
  head : db.suggestTags org col pre categoryId limit =
    ((fullRanking db.toTagStore org categoryId (beginsWith pre)).take limit).map (·.suggestion)
  disclosed : ∀ s ∈ db.suggestTags org col pre categoryId limit, Disclosed db.toTagStore org s

section Suggestions

variable [Casing] {org : ℕ} {pre : Option String} {categoryId : Option ℕ} {limit : ℕ}

/-- No other organisation's tag and no tag below the floor is suggested, whatever the prefix. -/
theorem disclosed_of_mem {store : TagStore} {col : Collation} {s : TagSuggestion}
    (h : s ∈ store.suggestTags org col pre categoryId limit) : Disclosed store org s := by
  rw [suggestTags_eq_foldl] at h
  obtain ⟨r, hr, rfl⟩ := List.mem_map.mp h
  obtain ⟨R, hR, hrR⟩ := (mem_foldl_addPass hr).resolve_left List.not_mem_nil
  rw [rankings, List.mem_append, List.mem_cons] at hR
  rcases hR with hR | rfl | hR
  · obtain ⟨c, -, rfl⟩ := Option.map_eq_some_iff.mp (Option.mem_toList.mp hR)
    rw [TagStore.categoryRanking, List.mem_insertionSort, List.mem_map] at hrR
    obtain ⟨tag, htag, rfl⟩ := hrR
    obtain ⟨hmem, hkeep⟩ := List.mem_filter.mp htag
    exact ⟨tag, hmem, (of_decide_eq_true hkeep).1, rfl⟩
  · rw [TagStore.recentRanking, List.mem_insertionSort, List.mem_map] at hrR
    obtain ⟨tag, htag, rfl⟩ := hrR
    obtain ⟨hmem, hkeep⟩ := List.mem_filter.mp htag
    exact ⟨tag, hmem, (of_decide_eq_true hkeep).1, rfl⟩
  · split_ifs at hR with hshares
    · rw [List.mem_singleton.mp hR, TagStore.dictionaryRanking, List.mem_insertionSort,
        List.mem_map] at hrR
      obtain ⟨e, he, rfl⟩ := hrR
      obtain ⟨hmem, hkeep⟩ := List.mem_filter.mp he
      exact ⟨hshares, e, hmem, rfl, (of_decide_eq_true hkeep).2⟩
    · exact absurd hR List.not_mem_nil

variable {db : TagDb}

/-- The rankings depend on a test of names only at the names of tags. -/
theorem rankings_congr {like like' : String → Bool}
    (h : ∀ name, IsTagName name → like name = like' name) :
    rankings db.toTagStore org categoryId like = rankings db.toTagStore org categoryId like' := by
  have hcategory : ∀ c, db.categoryRanking org c like = db.categoryRanking org c like' := by
    intro c
    rw [TagStore.categoryRanking, TagStore.categoryRanking]
    congr 2
    exact List.filter_congr fun tag htag => by rw [h _ (db.isTagName tag htag)]
  have hrecent : db.recentRanking org like = db.recentRanking org like' := by
    rw [TagStore.recentRanking, TagStore.recentRanking]
    congr 2
    exact List.filter_congr fun tag htag => by rw [h _ (db.isTagName tag htag)]
  have hdictionary : db.dictionaryRanking like = db.dictionaryRanking like' := by
    rw [TagStore.dictionaryRanking, TagStore.dictionaryRanking]
    congr 2
    exact List.filter_congr fun e he => by rw [h _ (db.isEntryName e he)]
  simp only [rankings, hcategory, hrecent, hdictionary]

/-- A prefix with a character no tag name has is the beginning of no tag name. -/
theorem not_beginsWith (hpre : ¬∀ c ∈ normalizedPrefix pre, tagNameChar c = true) {name : String}
    (hname : IsTagName name) : beginsWith pre name = false :=
  decide_eq_false fun hbegins => hpre fun c hc =>
    List.all_eq_true.mp hname.chars c (hbegins.subset hc)

/-- The pattern of a prefix of characters of tag names matches the names that begin with it. -/
theorem like_eq_beginsWith (col : Collation)
    (hpre : ∀ c ∈ normalizedPrefix pre, tagNameChar c = true) {name : String}
    (hname : IsTagName name) : col.like (likeClause pre) name = beginsWith pre name := by
  have hparse : Like.parse (likeClause pre) = (normalizedPrefix pre).map .char ++ [.any] := by
    rw [likeClause, Like.parse_append_of_literal fun c hc => plain_of_tagNameChar (hpre c hc)]
    rfl
  rw [Bool.eq_iff_iff, Collation.like, hparse, Like.matches_chars_any, beginsWith,
    decide_eq_true_iff]
  constructor
  · -- a part of the name with the keys of the prefix is the prefix
    rintro ⟨rest, hrest⟩
    obtain ⟨front, back, heq, hfront, -⟩ := List.map_eq_append_iff.mp hrest.symm
    have hchars : ∀ c ∈ front, tagNameChar c = true := fun c hc =>
      List.all_eq_true.mp hname.chars c (heq ▸ List.mem_append_left back hc)
    exact ⟨back, by rw [heq, col.map_key_injOn hchars hpre hfront]⟩
  · exact fun hbegins => hbegins.map col.key

end Suggestions

/-! ### One tag -/

/-- A database with a single tag. -/
def oneTagDb [Casing] (name : String) (hname : IsTagName name) : TagDb where
  settings := .empty
  transactions := .empty
  tags := Table.empty.insert { orgId := 1, name := name, nameNormalized := name }
  transactionTags := .empty
  dictionary := .empty
  contributors := .empty
  names_nodup := List.nodup_singleton _
  entries_nodup := List.nodup_nil
  isTagName tag htag := by
    rw [List.mem_singleton.mp htag]
    exact hname
  isEntryName e he := absurd he List.not_mem_nil

theorem fullRanking_oneTagDb [Casing] {name : String} (hname : IsTagName name)
    (like : String → Bool) :
    fullRanking (oneTagDb name hname).toTagStore 1 none like =
      if like name then
        [{ nameNormalized := name
           suggestion := { name := name, source := .orgRecent, weight := 0 } }]
      else [] := by
  by_cases h : like name = true <;>
  simp [fullRanking, rankings, TagStore.recentRanking, TagStore.sharesTagData, oneTagDb,
    Table.insert, Table.empty, Row.withId, distinctBy, TagStore.usageWeight, h]

/-- The suggestions for a prefix are the head of the full ranking in every database, for every
category and limit, just when the prefix has only characters of tag names or its pattern matches no
tag name. -/
theorem suggestsHead_forall_iff [Casing] (col : Collation) (pre : Option String) :
    (∀ db org categoryId limit, 0 < limit → SuggestsHead db col org pre categoryId limit) ↔
      (∀ c ∈ normalizedPrefix pre, tagNameChar c = true) ∨
        ∀ name, IsTagName name → col.like (likeClause pre) name = false := by
  constructor
  · intro hhead
    refine or_iff_not_imp_left.mpr fun hpre name hname => ?_
    by_contra hmatches
    rw [Bool.not_eq_false] at hmatches
    have hone := (hhead (oneTagDb name hname) 1 none 1 Nat.one_pos).head
    rw [suggestTags_eq, fullRanking_oneTagDb, fullRanking_oneTagDb,
      not_beginsWith hpre hname] at hone
    simp [hmatches] at hone
  · intro hpre db org categoryId limit _
    refine ⟨?_, fun s => disclosed_of_mem⟩
    have hagree : ∀ name, IsTagName name →
        col.like (likeClause pre) name = beginsWith pre name := by
      intro name hname
      by_cases hchars : ∀ c ∈ normalizedPrefix pre, tagNameChar c = true
      · exact like_eq_beginsWith col hchars hname
      · rw [not_beginsWith hchars hname]
        exact hpre.resolve_left hchars name hname
    rw [suggestTags_eq, fullRanking, fullRanking, rankings_congr hagree]

attribute [local instance] asciiCasing

theorem isTagName_food : IsTagName "food" := ⟨"Food", by decide +kernel⟩

/-- For the prefix `_`, a tag that does not begin with it is suggested. -/
theorem underscore_suggests :
    ¬SuggestsHead (oneTagDb "food" isTagName_food) caseInsensitive 1 (some "_") none 1 := by
  intro h
  have hhead := h.head
  rw [suggestTags_eq, fullRanking_oneTagDb, fullRanking_oneTagDb] at hhead
  exact absurd hhead (by decide +kernel)

end Pfv
