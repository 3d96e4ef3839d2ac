import Mathlib.Tactic

/-!
# Sorted groups

A query that groups rows by a key and sorts the groups by a rank lists each group once, from the
highest rank to the lowest. Groups of one rank come in any order, and of a group whose columns are
not all the same the database returns any one of them.

## Main definitions

* `groupOf`: the rows of a group.
* `SortsGroups`: a list of the groups in an order the database may return.
* `ahead`: the groups that rank above a group.

## Main results

* `SortsGroups.length_ahead_lt`: a group on a page has few groups ahead.
* `exists_sortsGroups_mem_take`: a group with few groups ahead may be on the page.
* `find?_of_forall₂`: the first row that satisfies a predicate ranks at least as high as any other.
-/

namespace Pfv

variable {α β γ κ ρ : Type*}

/-! ### Groups in order -/

section Groups

variable [DecidableEq κ] [LinearOrder ρ] {keys : List κ} {rank rank' : κ → ρ} {groups : List κ}
  {k : κ}

/-- The rows with a given key. -/
def groupOf (key : α → κ) (rows : List α) (k : κ) : List α :=
  rows.filter (key · = k)

theorem mem_groupOf {key : α → κ} {rows : List α} {k : κ} {a : α} :
    a ∈ groupOf key rows k ↔ a ∈ rows ∧ key a = k := by
  rw [groupOf, List.mem_filter, decide_eq_true_eq]

/-- A list of the keys without repetition, from the highest rank to the lowest. -/
structure SortsGroups (keys : List κ) (rank : κ → ρ) (groups : List κ) : Prop where
  nodup : groups.Nodup
  mem_iff : ∀ k, k ∈ groups ↔ k ∈ keys
  sorted : groups.Pairwise fun k k' => rank k' ≤ rank k

/-- The keys that rank above a key. -/
def ahead (keys : List κ) (rank : κ → ρ) (k : κ) : List κ :=
  keys.dedup.filter fun k' => rank k < rank k'

theorem mem_ahead {k' : κ} : k' ∈ ahead keys rank k ↔ k' ∈ keys ∧ rank k < rank k' := by
  rw [ahead, List.mem_filter, List.mem_dedup, decide_eq_true_eq]

theorem nodup_ahead : (ahead keys rank k).Nodup :=
  (List.nodup_dedup keys).filter _

omit [DecidableEq κ] in
/-- Only the comparisons between keys matter. -/
theorem SortsGroups.congr (h : SortsGroups keys rank groups)
    (hrank : ∀ k ∈ keys, ∀ k' ∈ keys, rank k' ≤ rank k ↔ rank' k' ≤ rank' k) :
    SortsGroups keys rank' groups where
  nodup := h.nodup
  mem_iff := h.mem_iff
  sorted := h.sorted.imp_of_mem fun hk hk' hle =>
    (hrank _ ((h.mem_iff _).mp hk) _ ((h.mem_iff _).mp hk')).mp hle

/-- Fewer groups rank above a group than the page has entries. -/
theorem SortsGroups.length_ahead_lt (h : SortsGroups keys rank groups) {n : ℕ}
    (hk : k ∈ groups.take n) : (ahead keys rank k).length < n := by
  obtain ⟨before, after, hsplit⟩ := List.append_of_mem hk
  have hgroups : groups = before ++ k :: (after ++ groups.drop n) := by
    rw [← List.cons_append, ← List.append_assoc, ← hsplit, List.take_append_drop]
  have hsorted := h.sorted
  rw [hgroups, List.pairwise_append, List.pairwise_cons] at hsorted
  -- whatever ranks above the group comes before it
  have hsub : ahead keys rank k ⊆ before := by
    intro k' hk'
    obtain ⟨hmem, hlt⟩ := mem_ahead.mp hk'
    rw [← h.mem_iff, hgroups, List.mem_append, List.mem_cons] at hmem
    rcases hmem with hmem | rfl | hmem
    · exact hmem
    · exact absurd hlt (lt_irrefl _)
    · exact absurd (hsorted.2.1.1 k' hmem) (not_le.mpr hlt)
  have hle := (List.subperm_of_subset nodup_ahead hsub).length_le
  have hlength := congrArg List.length hsplit
  have htake := List.length_take_le n groups
  rw [List.length_append, List.length_cons] at hlength
  omega

/-- Among groups of one rank, any of them may come first. -/
theorem exists_sortsGroups_first (keys : List κ) (rank : κ → ρ) (k : κ) :
    ∃ groups, SortsGroups keys rank groups ∧
      ∀ before after, groups = before ++ k :: after → ∀ k' ∈ before, rank k < rank k' := by
  set rank' : κ → ρ ×ₗ ℕ := fun k' => toLex (rank k', if k' = k then 1 else 0) with hrank'
  set r : κ → κ → Prop := fun a b => rank' b ≤ rank' a with hr
  have : Std.Total r := ⟨fun a b => le_total (rank' b) (rank' a)⟩
  have : IsTrans κ r := ⟨fun a b c hab hbc => le_trans hbc hab⟩
  have hperm := List.perm_insertionSort r keys.dedup
  have hnodup := hperm.nodup_iff.mpr (List.nodup_dedup keys)
  have hsorted := List.pairwise_insertionSort r keys.dedup
  refine ⟨keys.dedup.insertionSort r, ⟨hnodup, fun k' => ?_, hsorted.imp fun hle => ?_⟩, ?_⟩
  · rw [hperm.mem_iff, List.mem_dedup]
  · rcases Prod.Lex.toLex_le_toLex.mp hle with hlt | ⟨heq, -⟩
    · exact hlt.le
    · exact heq.le
  · intro before after hsplit k' hk'
    rw [hsplit] at hsorted hnodup
    have hle := (List.pairwise_append.mp hsorted).2.2 k' hk' k List.mem_cons_self
    have hne : k' ≠ k := fun h =>
      (List.nodup_append.mp hnodup).2.2 k' hk' k List.mem_cons_self h
    rcases Prod.Lex.toLex_le_toLex.mp hle with hlt | ⟨-, hone⟩
    · exact hlt
    · simp [hne] at hone

/-- A group may be on the page when fewer groups rank above it than the page has entries. -/
theorem exists_sortsGroups_mem_take (hk : k ∈ keys) {n : ℕ}
    (hn : (ahead keys rank k).length < n) :
    ∃ groups, SortsGroups keys rank groups ∧ k ∈ groups.take n := by
  obtain ⟨groups, hgroups, hfirst⟩ := exists_sortsGroups_first keys rank k
  refine ⟨groups, hgroups, ?_⟩
  obtain ⟨before, after, hsplit⟩ := List.append_of_mem ((hgroups.mem_iff k).mpr hk)
  have hsub : before ⊆ ahead keys rank k := fun k' hk' =>
    mem_ahead.mpr ⟨(hgroups.mem_iff k').mp (by rw [hsplit]; exact List.mem_append_left _ hk'),
      hfirst before after hsplit k' hk'⟩
  have hnodup := hgroups.nodup
  rw [hsplit] at hnodup
  have hle := (List.subperm_of_subset (List.nodup_append.mp hnodup).1 hsub).length_le
  rw [hsplit, List.take_append]
  obtain ⟨m, hm⟩ : ∃ m, n - before.length = m + 1 := ⟨n - before.length - 1, by omega⟩
  rw [hm, List.take_succ_cons]
  exact List.mem_append_right _ List.mem_cons_self

end Groups

/-! ### One row for each group -/

section Rows

variable {R : α → β → Prop} {S : α → γ → Prop} {l : List α} {l' : List β}

theorem exists_forall₂ (h : ∀ a ∈ l, ∃ b, R a b) : ∃ l', List.Forall₂ R l l' := by
  induction l with
  | nil => exact ⟨[], .nil⟩
  | cons a l ih =>
    obtain ⟨ha, hl⟩ := List.forall_mem_cons.mp h
    obtain ⟨b, hb⟩ := ha
    obtain ⟨l', hl'⟩ := ih hl
    exact ⟨b :: l', .cons hb hl'⟩

theorem exists_of_mem_left (h : List.Forall₂ R l l') {a : α} (ha : a ∈ l) : ∃ b ∈ l', R a b := by
  induction h with
  | nil => exact absurd ha List.not_mem_nil
  | cons hab _ ih =>
    rcases List.mem_cons.mp ha with rfl | ha
    · exact ⟨_, List.mem_cons_self, hab⟩
    · obtain ⟨b, hb, hR⟩ := ih ha
      exact ⟨b, List.mem_cons_of_mem _ hb, hR⟩

theorem exists_of_mem_right (h : List.Forall₂ R l l') {b : β} (hb : b ∈ l') : ∃ a ∈ l, R a b :=
  exists_of_mem_left h.flip hb

/-- Rows that are each replaced by a row keep their places. -/
theorem forall₂_filterMap {f : β → Option γ} (h : List.Forall₂ R l l')
    (hf : ∀ a ∈ l, ∀ b ∈ l', R a b → ∃ c, f b = some c ∧ S a c) :
    List.Forall₂ S l (l'.filterMap f) := by
  induction h with
  | nil => exact .nil
  | cons hab _ ih =>
    obtain ⟨c, hc, hS⟩ := hf _ List.mem_cons_self _ List.mem_cons_self hab
    rw [List.filterMap_cons_some hc]
    exact .cons hS (ih fun a ha b hb =>
      hf a (List.mem_cons_of_mem _ ha) b (List.mem_cons_of_mem _ hb))

/-- The first row that satisfies a predicate ranks at least as high as every row that does. -/
theorem find?_of_forall₂ [LinearOrder ρ] {rank : α → ρ} {p : β → Bool} (h : List.Forall₂ R l l')
    (hsorted : l.Pairwise fun a a' => rank a' ≤ rank a) {a : α} (ha : a ∈ l)
    (hp : ∀ b, R a b → p b = true) :
    ∃ a' ∈ l, ∃ b, R a' b ∧ l'.find? p = some b ∧ rank a ≤ rank a' := by
  induction h with
  | nil => exact absurd ha List.not_mem_nil
  | @cons a₁ b₁ _ _ hab _ ih =>
    obtain ⟨hhead, htail⟩ := List.pairwise_cons.mp hsorted
    by_cases hb : p b₁ = true
    · refine ⟨a₁, List.mem_cons_self, b₁, hab, List.find?_cons_of_pos hb, ?_⟩
      rcases List.mem_cons.mp ha with rfl | ha
      · exact le_rfl
      · exact hhead a ha
    · rcases List.mem_cons.mp ha with rfl | ha
      · exact absurd (hp b₁ hab) hb
      · obtain ⟨a', ha', b, hR, hfind, hle⟩ := ih htail ha
        exact ⟨a', List.mem_cons_of_mem _ ha', b, hR, by rw [List.find?_cons_of_neg hb, hfind], hle⟩

end Rows

end Pfv
