import Pfv.Services.Tags
import Pfv.Tags.Suggestions

/-!
# The contributor counts of the shared dictionary

A session computes the count it writes from the dictionary row it read when it began, while the wipe
of an organisation lowers the counts in the database and deletes whatever contributor rows are
there. Two organisations that contribute a tag at once can both write the same count, and the count
then stays below the number of contributor rows. The counts are right when every count that is
written was computed from the count it replaces, and every wipe read the contributions it deletes.

## Main definitions

* `TagStore.Consistent`: every count is the number of contributor rows, one for an organisation.
* `TagWrite.Current`: what a session read is still there when it commits.

## Main results

* `TagWrite.consistent`: a current write keeps the counts.
* `counted_of_interleaving`: the counts and the suggestions after every interleaving of sessions
  whose commits are current.
-/

namespace Pfv

/-! ### Counts -/

/-- The count of every dictionary tag is the number of its contributor rows; every contributor row
is of a dictionary tag, and an organisation has at most one for a tag. -/
structure TagStore.Consistent (store : TagStore) : Prop where
  counted : ∀ e ∈ store.dictionary.rows,
    e.contributorOrgCount = (store.contributorsOf e.id).length
  listed : ∀ c ∈ store.contributors.rows, ∃ e ∈ store.dictionary.rows, e.id = c.dictionaryTagId
  once : (store.contributors.rows.map fun c => (c.dictionaryTagId, c.contributorOrgId)).Nodup

instance (store : TagStore) : Decidable store.Consistent :=
  decidable_of_iff
    ((∀ e ∈ store.dictionary.rows,
        e.contributorOrgCount = ((store.contributorsOf e.id).length : ℤ)) ∧
      (∀ c ∈ store.contributors.rows, ∃ e ∈ store.dictionary.rows, e.id = c.dictionaryTagId) ∧
      (store.contributors.rows.map fun c => (c.dictionaryTagId, c.contributorOrgId)).Nodup)
    ⟨fun h => ⟨h.1, h.2.1, h.2.2⟩, fun h => ⟨h.counted, h.listed, h.once⟩⟩

/-- The count a contribution was computed from is the count the row has. -/
def Contribution.Current (store : TagStore) (c : Contribution) : Prop :=
  c.contributorIsNew = true →
    c.contributorOrgCount = (store.entry? c.name).elim 0 (·.contributorOrgCount)

instance (store : TagStore) (c : Contribution) : Decidable (c.Current store) :=
  inferInstanceAs (Decidable (_ → _))

/-- What a session read for a write is still so in the rows it is written to. -/
def TagWrite.Current (store : TagStore) : TagWrite → Prop
  | .contribution c => c.Current store
  | .wipe w => w.ids.Perm (store.contributedIds w.org)
  | _ => True

instance (store : TagStore) : ∀ w : TagWrite, Decidable (w.Current store)
  | .tag _ => .isTrue trivial
  | .contribution c => inferInstanceAs (Decidable (c.Current store))
  | .transactionTags _ _ _ => .isTrue trivial
  | .wipe w => inferInstanceAs (Decidable (w.ids.Perm (store.contributedIds w.org)))

section

variable {store store' : TagStore}

/-- The counts are about two tables alone. -/
theorem TagStore.Consistent.of_eq (h : store.Consistent)
    (hdictionary : store'.dictionary = store.dictionary)
    (hcontributors : store'.contributors = store.contributors) : store'.Consistent := by
  refine ⟨fun e he => ?_, fun c hc => ?_, ?_⟩
  · rw [TagStore.contributorsOf, hcontributors]
    exact h.counted e (hdictionary ▸ he)
  · rw [hdictionary]
    exact h.listed c (hcontributors ▸ hc)
  · rw [hcontributors]
    exact h.once

theorem TagStore.entry?_mem {name : String} {e : TagDictionary} (h : store.entry? name = some e) :
    e ∈ store.dictionary.rows ∧ e.nameNormalized = name :=
  ⟨List.mem_of_find?_eq_some h, by simpa using List.find?_some h⟩

/-! ### Contributions -/

/-- A new dictionary tag is found under its name, and counts nobody. -/
theorem TagStore.insertEntry_ok {name : String} (h : store.insertEntry name = .ok store') :
    store.entry? name = none ∧
      store'.dictionary = store.dictionary.insert { nameNormalized := name } ∧
      store'.contributors = store.contributors ∧
      store'.entry? name = some { id := store.dictionary.next, nameNormalized := name } := by
  unfold TagStore.insertEntry at h
  simp only [↓unit_bind_eq_ok, raiseIf_eq_ok, pure_eq_ok, not_not] at h
  obtain ⟨hfree, rfl⟩ := h
  refine ⟨hfree, rfl, rfl, ?_⟩
  unfold TagStore.entry? at hfree
  simp only [TagStore.entry?, Table.insert, List.find?_append, hfree, Option.none_or]
  simp [Row.withId]

theorem TagStore.Consistent.insertEntry {name : String} (h : store.Consistent)
    (hinsert : store.insertEntry name = .ok store') : store'.Consistent := by
  obtain ⟨-, hdictionary, hcontributors, -⟩ := TagStore.insertEntry_ok hinsert
  have hrows : store'.dictionary.rows =
      store.dictionary.rows ++ [{ id := store.dictionary.next, nameNormalized := name }] := by
    rw [hdictionary]
    rfl
  refine ⟨fun e he => ?_, fun c hc => ?_, hcontributors ▸ h.once⟩
  · rw [TagStore.contributorsOf, hcontributors]
    rw [hrows] at he
    rcases List.mem_append.mp he with he | he
    · exact h.counted e he
    · obtain rfl := List.mem_singleton.mp he
      -- No contributor row is of a tag that was not there.
      rw [List.filter_eq_nil_iff.mpr fun c hc hnew => ?_]
      · rfl
      · obtain ⟨e, he, hid⟩ := h.listed c hc
        have hlt : e.id < store.dictionary.next := store.dictionary.fresh e he
        rw [hid, of_decide_eq_true hnew] at hlt
        exact lt_irrefl _ hlt
  · rw [hcontributors] at hc
    obtain ⟨e, he, hid⟩ := h.listed c hc
    exact ⟨e, hrows ▸ List.mem_append_left _ he, hid⟩

/-- The rows of the dictionary after a write of counts. -/
theorem TagStore.mem_writeCounts {id : ℕ} {n : Option ℤ} {u : ℤ} {e' : TagDictionary}
    (h : e' ∈ (store.writeCounts id n u).dictionary.rows) :
    ∃ e ∈ store.dictionary.rows, e'.id = e.id ∧
      e'.contributorOrgCount = if e.id = id then n.getD e.contributorOrgCount
        else e.contributorOrgCount := by
  obtain ⟨e, he, rfl⟩ := List.mem_map.mp h
  refine ⟨e, he, ?_⟩
  by_cases hid : e.id = id
  · have hrow : Row.id e = id := hid
    rw [if_pos hrow, if_pos hid]
    exact ⟨rfl, rfl⟩
  · have hrow : ¬Row.id e = id := hid
    rw [if_neg hrow, if_neg hid]
    exact ⟨rfl, rfl⟩

/-- Writing back the counts with the contributor count left alone. -/
theorem TagStore.Consistent.writeUsage (h : store.Consistent) (id : ℕ) (u : ℤ) :
    (store.writeCounts id none u).Consistent := by
  refine ⟨fun e' he' => ?_, fun c hc => ?_, h.once⟩
  · obtain ⟨e, he, hid, hcount⟩ := TagStore.mem_writeCounts he'
    rw [hcount, hid, Option.getD_none, ite_self]
    exact h.counted e he
  · obtain ⟨e, he, hid⟩ := h.listed c hc
    refine ⟨_, List.mem_map_of_mem he, ?_⟩
    split_ifs
    · exact hid
    · exact hid

/-- A new contributor row, and the count of its tag one up. -/
theorem TagStore.Consistent.contributor {e : TagDictionary} {org : ℕ} (h : store.Consistent)
    (he : e ∈ store.dictionary.rows) (hinsert : store.insertContributor e.id org = .ok store')
    (u : ℤ) : (store'.writeCounts e.id (some (e.contributorOrgCount + 1)) u).Consistent := by
  unfold TagStore.insertContributor at hinsert
  simp only [↓unit_bind_eq_ok, raiseIf_eq_ok, pure_eq_ok] at hinsert
  obtain ⟨hfree, rfl⟩ := hinsert
  refine ⟨fun e₂ he₂ => ?_, fun c hc => ?_, ?_⟩
  · obtain ⟨e₁, he₁, hid, hcount⟩ := TagStore.mem_writeCounts he₂
    have hold := h.counted e₁ he₁
    have hrows : ((store.contributors.insert
        { dictionaryTagId := e.id, contributorOrgId := org }).rows.filter
          (·.dictionaryTagId = e₁.id)).length =
        (store.contributorsOf e₁.id).length + if e₁.id = e.id then 1 else 0 := by
      rw [Table.insert, List.filter_append, List.length_append]
      congr 1
      by_cases hid₁ : e₁.id = e.id
      · simp [hid₁, Row.withId]
      · simp [hid₁, Row.withId, Ne.symm hid₁]
    rw [hcount, hid]
    change _ = (((store.contributors.insert _).rows.filter _).length : ℤ)
    rw [hrows]
    split_ifs with hsame
    · have hrow : e₁ = e := Table.get?_inj (Table.get?_of_mem he₁) (Table.get?_of_mem he) hsame
      subst hrow
      rw [Option.getD_some, hold]
      push_cast
      ring
    · simpa using hold
  · rcases List.mem_append.mp hc with hc | hc
    · obtain ⟨e₁, he₁, hid⟩ := h.listed c hc
      refine ⟨_, List.mem_map_of_mem he₁, ?_⟩
      split_ifs
      · exact hid
      · exact hid
    · obtain rfl := List.mem_singleton.mp hc
      refine ⟨_, List.mem_map_of_mem he, ?_⟩
      split_ifs
      · rfl
      · rfl
  · change ((store.contributors.rows ++ [_]).map _).Nodup
    rw [List.map_append, List.nodup_append]
    refine ⟨h.once, List.nodup_singleton _, fun p hp q hq hpq => hfree ?_⟩
    obtain ⟨c, hc, rfl⟩ := List.mem_map.mp hp
    obtain rfl := List.mem_singleton.mp hq
    exact ⟨c, hc, congrArg Prod.fst hpq, congrArg Prod.snd hpq⟩

/-- A contribution computed from the count it replaces keeps the counts. -/
theorem TagStore.Consistent.contribute {c : Contribution} (h : store.Consistent)
    (hc : c.Current store) (hwrite : store.contribute c = .ok store') : store'.Consistent := by
  unfold TagStore.contribute at hwrite
  simp only [bind_eq_ok, orRaise_eq_ok, pure_eq_ok] at hwrite
  obtain ⟨listed, hlisted, e, hentry, joined, hjoined, rfl⟩ := hwrite
  have hstep : listed.Consistent ∧ e.contributorOrgCount =
      (store.entry? c.name).elim 0 (·.contributorOrgCount) := by
    unfold TagStore.contributeEntry at hlisted
    split_ifs at hlisted with hnew
    · obtain ⟨hfree, -, -, hfound⟩ := TagStore.insertEntry_ok hlisted
      obtain rfl := Option.some_inj.mp (hfound.symm.trans hentry)
      exact ⟨h.insertEntry hlisted, by rw [hfree]; rfl⟩
    · obtain rfl := pure_eq_ok.mp hlisted
      exact ⟨h, by rw [hentry]; rfl⟩
  obtain ⟨hlist, hcount⟩ := hstep
  unfold TagStore.contributeRow at hjoined
  split_ifs at hjoined with hnew
  · rw [if_pos hnew, hc hnew, ← hcount]
    exact hlist.contributor (TagStore.entry?_mem hentry).1 hjoined _
  · rw [if_neg hnew]
    obtain rfl := pure_eq_ok.mp hjoined
    exact hlist.writeUsage e.id _

/-! ### Wipes -/

/-- Lowering counts leaves the contributors alone, and lowers each count as often as it is named. -/
theorem TagStore.decrement_all : ∀ (ids : List ℕ) (store : TagStore),
    (ids.foldl TagStore.decrement store).contributors = store.contributors ∧
      (∀ e' ∈ (ids.foldl TagStore.decrement store).dictionary.rows,
        ∃ e ∈ store.dictionary.rows, e'.id = e.id ∧
          e'.contributorOrgCount = e.contributorOrgCount - ids.count e.id) ∧
      ∀ e ∈ store.dictionary.rows,
        ∃ e' ∈ (ids.foldl TagStore.decrement store).dictionary.rows, e'.id = e.id
  | [], store => ⟨rfl, fun e he => ⟨e, he, rfl, by simp⟩, fun e he => ⟨e, he, rfl⟩⟩
  | i :: ids, store => by
      obtain ⟨hcontributors, hdown, hup⟩ := TagStore.decrement_all ids (store.decrement i)
      have hstep : ∀ e : TagDictionary, ∃ e₁ : TagDictionary,
          (if e.id = i then { e with contributorOrgCount := e.contributorOrgCount - 1 } else e) =
              e₁ ∧
            e₁.id = e.id ∧
            e₁.contributorOrgCount = e.contributorOrgCount - if e.id = i then 1 else 0 := by
        intro e
        refine ⟨_, rfl, ?_⟩
        split_ifs
        · exact ⟨rfl, rfl⟩
        · exact ⟨rfl, (sub_zero _).symm⟩
      refine ⟨hcontributors, fun e' he' => ?_, fun e he => ?_⟩
      · obtain ⟨e₁, he₁, hid, hcount⟩ := hdown e' he'
        obtain ⟨e, he, rfl⟩ := List.mem_map.mp he₁
        obtain ⟨e₂, he₂, hid₂, hcount₂⟩ := hstep e
        rw [show (if Row.id e = i then _ else e) = e₂ from he₂] at hid hcount
        refine ⟨e, he, hid.trans hid₂, ?_⟩
        rw [hcount, hcount₂, hid₂, List.count_cons]
        by_cases hi : e.id = i
        · simp only [hi, if_true, beq_self_eq_true]
          push_cast
          ring
        · simp [hi, Ne.symm hi]
      · obtain ⟨e₂, he₂, hid₂, -⟩ := hstep e
        obtain ⟨e', he', hid'⟩ := hup e₂ (he₂ ▸ List.mem_map_of_mem he)
        exact ⟨e', he', hid'.trans hid₂⟩

/-- Among the contributors of a tag, those of an organisation are as many as its contributions to
the tag. -/
theorem TagStore.length_contributorsOf (store : TagStore) (id org : ℕ) :
    ((store.contributorsOf id).length : ℤ) =
      ((store.deleteContributors org).contributorsOf id).length +
        (store.contributedIds org).count id := by
  have hlist : ∀ l : List TagDictionaryContributor,
      (l.filter (·.dictionaryTagId = id)).length =
        ((l.filter (·.contributorOrgId ≠ org)).filter (·.dictionaryTagId = id)).length +
          ((l.filter (·.contributorOrgId = org)).map (·.dictionaryTagId)).count id := by
    intro l
    induction l with
    | nil => rfl
    | cons c l ih =>
      by_cases horg : c.contributorOrgId = org
      · by_cases hid : c.dictionaryTagId = id
        · simp [horg, hid, ih]
          omega
        · simp [horg, hid, ih]
      · by_cases hid : c.dictionaryTagId = id
        · simp [horg, hid, ih]
          omega
        · simp [horg, hid, ih]
  exact_mod_cast hlist store.contributors.rows

/-- A wipe that read the contributions it deletes keeps the counts. -/
theorem TagStore.Consistent.wipe {w : Wipe} (h : store.Consistent)
    (hw : w.ids.Perm (store.contributedIds w.org)) :
    ((w.ids.foldl TagStore.decrement store).deleteContributors w.org).Consistent := by
  obtain ⟨hcontributors, hdown, hup⟩ := TagStore.decrement_all w.ids store
  have hkept :
      ∀ id, ((w.ids.foldl TagStore.decrement store).deleteContributors w.org).contributorsOf
      id = (store.deleteContributors w.org).contributorsOf id := by
    intro id
    simp only [TagStore.contributorsOf, TagStore.deleteContributors, hcontributors]
  refine ⟨fun e' he' => ?_, fun c hc => ?_, ?_⟩
  · obtain ⟨e, he, hid, hcount⟩ := hdown e' he'
    have hold := h.counted e he
    rw [store.length_contributorsOf e.id w.org] at hold
    rw [hcount, hkept, hid, hw.count_eq, hold]
    ring
  · have hmem : c ∈ store.contributors.rows := by
      have := List.mem_of_mem_filter hc
      rwa [hcontributors] at this
    obtain ⟨e, he, hid⟩ := h.listed c hmem
    obtain ⟨e', he', hid'⟩ := hup e he
    exact ⟨e', he', hid'.trans hid⟩
  · have hsub :
        ((w.ids.foldl TagStore.decrement store).deleteContributors w.org).contributors.rows =
        store.contributors.rows.filter (·.contributorOrgId ≠ w.org) := by
      rw [TagStore.deleteContributors, hcontributors]
      rfl
    rw [hsub]
    exact (List.filter_sublist.map _).nodup h.once

/-! ### Sessions -/

/-- A current write keeps the counts. -/
theorem TagWrite.consistent {w : TagWrite} (h : store.Consistent) (hw : w.Current store)
    (happly : w.apply store = .ok store') : store'.Consistent := by
  cases w with
  | tag t =>
    simp only [TagWrite.apply, TagStore.insertTag, ↓unit_bind_eq_ok, pure_eq_ok] at happly
    obtain ⟨-, rfl⟩ := happly
    exact h.of_eq rfl rfl
  | contribution c => exact h.contribute hw happly
  | transactionTags org transactionId names =>
    simp only [TagWrite.apply, TagStore.replaceTransactionTags, bind_eq_ok, pure_eq_ok] at happly
    obtain ⟨_, -, rfl⟩ := happly
    exact h.of_eq rfl rfl
  | wipe w =>
    obtain rfl := pure_eq_ok.mp happly
    exact (h.wipe hw).of_eq rfl rfl

/-- What a session read before its commit is still so when each of its writes takes effect. -/
def TagPhase.Current (s : Locked TagStore TagLock) : TagPhase → Prop
  | .committing t => Throughout TagWrite.Current TagWrite.apply s.state t.staged
  | _ => True

instance (s : Locked TagStore TagLock) : ∀ p : TagPhase, Decidable (p.Current s)
  | .committing t =>
      inferInstanceAs (Decidable (Throughout TagWrite.Current TagWrite.apply s.state t.staged))
  | .begin _ | .tagging _ | .entry _ _ | .contributor _ _ | .counting _ _ | .decrementing _ _ _ |
    .deletingContributors _ _ | .deletingTags _ => .isTrue trivial

/-- A step of a session keeps the counts when its commit is current. -/
theorem TagPhase.consistent [Casing] {s : Locked TagStore TagLock} {p : TagPhase}
    (h : s.state.Consistent) (hp : p.Current s) : (tagSystem.advance s p).1.state.Consistent := by
  simp only [tagSystem]
  split_ifs
  · exact h
  · split
    · next t =>
      refine serve_invariant h fun store' hcommit => ?_
      exact Throughout.foldlM_invariant TagStore.Consistent
        (fun _ _ _ hs hw happly => TagWrite.consistent hs hw happly) hp h hcommit
    · split
      · exact h
      · exact h

/-- At the k-anonymity floor, that many organisations contributed the tag. -/
theorem TagStore.Consistent.floor {e : TagDictionary} (h : store.Consistent)
    (he : e ∈ store.dictionary.rows) (hshared : e.isShared) (hseed : e.isSeed = false) :
    sharedDictionaryMinContributors ≤
      ((store.contributorsOf e.id).map (·.contributorOrgId)).toFinset.card := by
  have hnodup : ((store.contributorsOf e.id).map (·.contributorOrgId)).Nodup := by
    refine List.Nodup.map_on (fun c hc c' hc' horg => ?_) (h.once.of_map.filter _)
    obtain ⟨hmem, hid⟩ := List.mem_filter.mp hc
    obtain ⟨hmem', hid'⟩ := List.mem_filter.mp hc'
    have hid : c.dictionaryTagId = e.id := of_decide_eq_true hid
    have hid' : c'.dictionaryTagId = e.id := of_decide_eq_true hid'
    exact List.inj_on_of_nodup_map h.once hmem hmem' (Prod.ext (hid.trans hid'.symm) horg)
  rw [List.toFinset_card_of_nodup hnodup, List.length_map]
  rcases hshared with hcount | hseeded
  · rw [h.counted e he] at hcount
    exact_mod_cast hcount
  · exact absurd hseeded (by simp [hseed])

/-- Counts under concurrency: from every state whose counts are right, after every interleaving of
the steps of any number of sessions of any organisations in which every commit is current, the count
of every dictionary tag is the number of its contributor rows, and a tag that is not seeded is
suggested across organisations only when that many organisations contributed it. -/
theorem counted_of_interleaving [Casing] {s : Running (Locked TagStore TagLock) TagPhase}
    (hs : s.shared.state.Consistent) {ts : List (Turn TagRequest)}
    (hts : tagSystem.Respects TagPhase.Current s ts) :
    (∀ e ∈ (tagSystem.interleave s ts).shared.state.dictionary.rows,
      e.contributorOrgCount =
        ((tagSystem.interleave s ts).shared.state.contributorsOf e.id).length) ∧
      ∀ org col pre categoryId limit,
        ∀ suggestion ∈ (tagSystem.interleave s ts).shared.state.suggestTags org col pre categoryId
          limit, suggestion.source = .sharedDictionary →
            ∃ e ∈ (tagSystem.interleave s ts).shared.state.dictionary.rows,
              e.nameNormalized = suggestion.name ∧
                (e.isSeed = false → sharedDictionaryMinContributors ≤
                  (((tagSystem.interleave s ts).shared.state.contributorsOf e.id).map
                    (·.contributorOrgId)).toFinset.card) := by
  have hend : (tagSystem.interleave s ts).shared.state.Consistent :=
    Sessions.shared_invariant (I := fun s : Locked TagStore TagLock => s.state.Consistent)
      (fun _ _ h hp => TagPhase.consistent h hp) ts hs hts
  refine ⟨hend.counted, fun org col pre categoryId limit suggestion hmem hsource => ?_⟩
  have hdisclosed := disclosed_of_mem hmem
  rw [Disclosed, hsource] at hdisclosed
  obtain ⟨-, e, he, hname, hshared⟩ := hdisclosed
  exact ⟨e, he, hname, hend.floor he hshared⟩

end

/-! ### Sample interleavings -/

attribute [local instance] asciiCasing

/-- Organisations 1 and 2 share their tags; organisation 3 contributed `food` before. -/
def sampleTagStore : TagStore where
  settings := (Table.empty.insert { orgId := 1, key := "share_tag_data", value := "true" }).insert
    { orgId := 2, key := "share_tag_data", value := "true" }
  transactions := Table.empty
  tags := Table.empty
  transactionTags := Table.empty
  dictionary := Table.empty.insert
    { nameNormalized := "food", contributorOrgCount := 1, usageCount := 1 }
  contributors := Table.empty.insert { dictionaryTagId := 1, contributorOrgId := 3 }

/-- An organisation creates the tag `food`. -/
def sampleCreateFood (org : ℕ) : TagRequest :=
  .create org 1 { name := "Food", pos := by decide, length_le := by decide }

/-- Two organisations contribute a tag one after the other, and then one of them is wiped. -/
def sampleTagTurns : List (Turn TagRequest) :=
  [.start (sampleCreateFood 1)] ++ List.replicate 7 (.advance 0) ++
    [.start (sampleCreateFood 2)] ++ List.replicate 7 (.advance 0) ++
      [.start (.wipe 1)] ++ List.replicate 6 (.advance 0)

/-- The state after some turns. -/
def sampleTagRun (ts : List (Turn TagRequest)) : Running (Locked TagStore TagLock) TagPhase :=
  tagSystem.interleave ⟨⟨sampleTagStore, []⟩, []⟩ ts

theorem counted_of_sampleTagTurns :
    (∀ e ∈ (sampleTagRun sampleTagTurns).shared.state.dictionary.rows,
      e.contributorOrgCount =
        ((sampleTagRun sampleTagTurns).shared.state.contributorsOf e.id).length) ∧
      ∀ org col pre categoryId limit,
        ∀ suggestion ∈ (sampleTagRun sampleTagTurns).shared.state.suggestTags org col pre categoryId
          limit, suggestion.source = .sharedDictionary →
            ∃ e ∈ (sampleTagRun sampleTagTurns).shared.state.dictionary.rows,
              e.nameNormalized = suggestion.name ∧
                (e.isSeed = false → sharedDictionaryMinContributors ≤
                  (((sampleTagRun sampleTagTurns).shared.state.contributorsOf e.id).map
                    (·.contributorOrgId)).toFinset.card) :=
  counted_of_interleaving (by decide +kernel) (by decide +kernel)

/-- Two organisations contribute the tag at once. -/
def sampleTagRace : List (Turn TagRequest) :=
  [.start (sampleCreateFood 1), .start (sampleCreateFood 2)] ++ List.replicate 16 (.advance 0)

/-- Each of the two reads the count 1 and writes 2, beside three contributor rows. -/
theorem not_counted_of_sampleTagRace :
    sampleTagStore.Consistent ∧ (sampleTagRun sampleTagRace).live.length = 0 ∧
      ¬∀ e ∈ (sampleTagRun sampleTagRace).shared.state.dictionary.rows,
        e.contributorOrgCount =
          ((sampleTagRun sampleTagRace).shared.state.contributorsOf e.id).length := by
  refine ⟨?_, ?_, ?_⟩
  · decide +kernel
  · decide +kernel
  · decide +kernel

/-- The serial run contributes the tag three times and takes one contribution back. -/
example : (sampleTagRun sampleTagTurns).shared.state.dictionary.rows.map (·.contributorOrgCount) =
    [2] := by
  decide +kernel

end Pfv
