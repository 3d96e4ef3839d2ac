import Mathlib.Tactic

/-!
# Filling a list from pages

A list is filled up to a limit from one ranking after another, each read no further than the limit,
and an entry whose key is there already is passed over. That gives the head of all rankings
together, without repeated keys.

## Main definitions

* `distinctBy`: a list without entries whose key has occurred.
* `addPage`: what a page adds to the entries so far.

## Main results

* `take_filter_take`: a page with room for the entries that are dropped is long enough.
* `addPage_eq`: a page adds its head without repeated keys.
* `addPage_take`: the first `limit` entries of a ranking with distinct keys are enough.
-/

namespace Pfv

variable {α β : Type*} [DecidableEq β] {key : α → β}

/-- The entries of a list whose key has not occurred. -/
def distinctBy (key : α → β) : List β → List α → List α
  | _, [] => []
  | seen, a :: l =>
      if key a ∈ seen then distinctBy key seen l else a :: distinctBy key (key a :: seen) l

/-- Add the entries of a page whose key is not there yet, until the limit is reached. -/
def addPage (key : α → β) (limit : ℕ) : List α → List α → List α
  | acc, [] => acc
  | acc, a :: page =>
      if key a ∈ acc.map key then addPage key limit acc page
      else if limit ≤ (acc ++ [a]).length then acc ++ [a]
      else addPage key limit (acc ++ [a]) page

theorem distinctBy_congr {seen seen' : List β} (h : ∀ b, b ∈ seen ↔ b ∈ seen') (l : List α) :
    distinctBy key seen l = distinctBy key seen' l := by
  induction l generalizing seen seen' with
  | nil => rfl
  | cons a l ih =>
    have hcons : ∀ b, b ∈ key a :: seen ↔ b ∈ key a :: seen' := fun b => by simp [h]
    simp only [distinctBy, h, ih h, ih hcons]

/-- With distinct keys, only the entries whose key was there before are dropped. -/
theorem distinctBy_eq_filter {l : List α} (hl : (l.map key).Nodup) (seen : List β) :
    distinctBy key seen l = l.filter fun a => key a ∉ seen := by
  induction l generalizing seen with
  | nil => rfl
  | cons a l ih =>
    rw [List.map_cons, List.nodup_cons] at hl
    by_cases ha : key a ∈ seen
    · rw [distinctBy, if_pos ha, ih hl.2, List.filter_cons_of_neg (by simpa using ha)]
    · rw [distinctBy, if_neg ha, ih hl.2, List.filter_cons_of_pos (by simpa using ha)]
      congr 1
      refine List.filter_congr fun b hb => ?_
      have hne : key b ≠ key a := fun h => hl.1 (h ▸ List.mem_map_of_mem hb)
      simp [hne]

theorem distinctBy_append (seen : List β) (l l' : List α) :
    distinctBy key seen (l ++ l') =
      distinctBy key seen l ++ distinctBy key ((distinctBy key seen l).map key ++ seen) l' := by
  induction l generalizing seen with
  | nil => rfl
  | cons a l ih =>
    by_cases ha : key a ∈ seen
    · rw [List.cons_append, distinctBy, if_pos ha, ih, distinctBy, if_pos ha]
    · rw [List.cons_append, distinctBy, if_neg ha, ih, distinctBy, if_neg ha, List.cons_append]
      congr 2
      exact distinctBy_congr (fun b => by simp [or_left_comm]) l'

theorem mem_of_mem_distinctBy {seen : List β} {l : List α} {a : α} (h : a ∈ distinctBy key seen l) :
    a ∈ l := by
  induction l generalizing seen with
  | nil => exact h
  | cons b l ih =>
    rw [distinctBy] at h
    split_ifs at h
    · exact List.mem_cons_of_mem b (ih h)
    · exact (List.mem_cons.mp h).elim (fun h => h ▸ List.mem_cons_self)
        fun h => List.mem_cons_of_mem b (ih h)

/-- A page adds its entries with new keys, as many as there is room for. -/
theorem addPage_eq {limit : ℕ} {acc : List α} (h : acc.length < limit) (page : List α) :
    addPage key limit acc page =
      acc ++ (distinctBy key (acc.map key) page).take (limit - acc.length) := by
  induction page generalizing acc with
  | nil => simp [addPage, distinctBy]
  | cons a page ih =>
    by_cases ha : key a ∈ acc.map key
    · rw [addPage, if_pos ha, ih h, distinctBy, if_pos ha]
    · obtain ⟨k, hk⟩ : ∃ k, limit - acc.length = k + 1 := ⟨limit - acc.length - 1, by omega⟩
      rw [addPage, if_neg ha, distinctBy, if_neg ha, hk, List.take_succ_cons]
      by_cases hfull : limit ≤ (acc ++ [a]).length
      · have hzero : k = 0 := by
          rw [List.length_append, List.length_singleton] at hfull
          omega
        rw [if_pos hfull, hzero, List.take_zero]
      · have hroom : limit - (acc ++ [a]).length = k := by
          rw [List.length_append, List.length_singleton]
          omega
        have hseen : distinctBy key ((acc ++ [a]).map key) page =
            distinctBy key (key a :: acc.map key) page :=
          distinctBy_congr (fun b => by simp [or_comm]) page
        rw [if_neg hfull, ih (not_le.mp hfull), hroom, hseen, List.append_assoc]
        rfl

omit [DecidableEq β] in
/-- Among the first `n + s` entries of a list at least `n` pass a filter that drops at most `s`, or
all entries that pass it are there. -/
theorem take_filter_take {p : α → Bool} {l : List α} {n s : ℕ}
    (h : (l.filter fun a => !p a).length ≤ s) :
    ((l.take (n + s)).filter p).take n = (l.filter p).take n := by
  induction l generalizing n s with
  | nil => simp
  | cons a l ih =>
    by_cases ha : p a = true
    · have hrest : (l.filter fun a => !p a).length ≤ s := by simpa [ha] using h
      cases n with
      | zero => simp
      | succ n =>
        rw [Nat.succ_add, List.take_succ_cons, List.filter_cons_of_pos ha,
          List.filter_cons_of_pos ha, List.take_succ_cons, List.take_succ_cons, ih hrest]
    · have hlength : (l.filter fun a => !p a).length + 1 ≤ s := by simpa [ha] using h
      obtain ⟨t, rfl⟩ : ∃ t, s = t + 1 := ⟨s - 1, by omega⟩
      rw [← Nat.add_assoc, List.take_succ_cons, List.filter_cons_of_neg ha,
        List.filter_cons_of_neg ha, ih (by omega)]

/-- With distinct keys, as many entries are dropped as there are keys before, at most. -/
theorem length_filter_seen_le {l : List α} (hl : (l.map key).Nodup) (seen : List β) :
    (l.filter fun a => !decide (key a ∉ seen)).length ≤ seen.length := by
  have hnodup : ((l.filter fun a => !decide (key a ∉ seen)).map key).Nodup :=
    (List.filter_sublist.map key).nodup hl
  have hsub : (l.filter fun a => !decide (key a ∉ seen)).map key ⊆ seen := by
    intro b hb
    obtain ⟨a, ha, rfl⟩ := List.mem_map.mp hb
    simpa using (List.mem_filter.mp ha).2
  simpa using (List.subperm_of_subset hnodup hsub).length_le

/-- The entries of a ranking with new keys, as many as there is room for, are among its first
entries, as many as there is room for and keys before. -/
theorem distinctBy_take {l : List α} (hl : (l.map key).Nodup) (seen : List β) (n : ℕ) :
    (distinctBy key seen (l.take (n + seen.length))).take n = (distinctBy key seen l).take n := by
  rw [distinctBy_eq_filter ((List.take_sublist _ l).map key |>.nodup hl),
    distinctBy_eq_filter hl, take_filter_take (length_filter_seen_le hl seen)]

/-- What a page from a ranking adds, when it has room for the entries that are there already. -/
theorem addPage_take {limit : ℕ} {acc l : List α} (hacc : acc.length < limit)
    (hl : (l.map key).Nodup) :
    addPage key limit acc (l.take (limit - acc.length + acc.length)) =
      acc ++ (distinctBy key (acc.map key) l).take (limit - acc.length) := by
  have htake := distinctBy_take hl (acc.map key) (limit - acc.length)
  rw [List.length_map] at htake
  rw [addPage_eq hacc, htake]

end Pfv
