import Mathlib.Tactic

/-!
# Totals by key

A dictionary of totals: amounts arrive with a key, and each is added to the total of its key. The
keys stand in the order in which they first arrived, and each of them once.

## Main definitions

* `tallyAdd`, `tally`: add one amount; the totals of a list of amounts.
* `total`: the total of a key, zero for a key that never arrived.

## Main results

* `total_tally`: the total of a key is the sum of its amounts.
* `nodup_keys_tally`, `mem_keys_tally`: the keys are those that arrived, each once.
* `sum_filter_congr`: sums over parts of a list, entry by entry.
* `sum_filter_eq_iff`: when two parts of a list have the same sum.
* `sum_map_tally`: the totals taken through additive maps.
* `sum_tally`, `sum_total_tally`: the totals of some keys together are the amounts of these keys
  together.
-/

namespace Pfv

variable {κ M : Type*} [DecidableEq κ] [AddCommMonoid M]

/-- Add an amount to the total of its key. -/
def tallyAdd : List (κ × M) → κ → M → List (κ × M)
  | [], k, v => [(k, v)]
  | (k', v') :: l, k, v => if k' = k then (k', v' + v) :: l else (k', v') :: tallyAdd l k v

/-- The totals of amounts with their keys. -/
def tally (entries : List (κ × M)) : List (κ × M) :=
  entries.foldl (fun l e => tallyAdd l e.1 e.2) []

/-- The total of a key. -/
def total (l : List (κ × M)) (k : κ) : M :=
  ((l.find? (·.1 = k)).map Prod.snd).getD 0

theorem keys_tallyAdd (l : List (κ × M)) (k : κ) (v : M) :
    (tallyAdd l k v).map Prod.fst =
      if k ∈ l.map Prod.fst then l.map Prod.fst else l.map Prod.fst ++ [k] := by
  induction l with
  | nil => simp [tallyAdd]
  | cons e l ih =>
    obtain ⟨k', v'⟩ := e
    rw [tallyAdd]
    split_ifs with hk hmem hmem
    · simp
    · exact absurd (hk ▸ List.mem_cons_self) hmem
    · have hmem' : k ∈ l.map Prod.fst :=
        (List.mem_cons.mp hmem).resolve_left fun h => hk h.symm
      rw [List.map_cons, ih, if_pos hmem', List.map_cons]
    · have hmem' : k ∉ l.map Prod.fst := fun h => hmem (List.mem_cons_of_mem k' h)
      rw [List.map_cons, ih, if_neg hmem', List.map_cons, List.cons_append]

theorem nodup_keys_tallyAdd {l : List (κ × M)} (h : (l.map Prod.fst).Nodup) (k : κ) (v : M) :
    ((tallyAdd l k v).map Prod.fst).Nodup := by
  rw [keys_tallyAdd]
  split_ifs with hk
  · exact h
  · exact List.nodup_append.mpr ⟨h, List.nodup_singleton k, fun a ha b hb => by
      rw [List.mem_singleton.mp hb]
      rintro rfl
      exact hk ha⟩

/-- Amounts add to the total of their key and to no other. -/
theorem total_tallyAdd (l : List (κ × M)) (k : κ) (v : M) (k' : κ) :
    total (tallyAdd l k v) k' = total l k' + if k = k' then v else 0 := by
  induction l with
  | nil => by_cases h : k = k' <;> simp [tallyAdd, total, h]
  | cons e l ih =>
    obtain ⟨j, w⟩ := e
    by_cases hj : j = k
    · subst hj
      by_cases h : j = k' <;> simp [tallyAdd, total, h]
    · rw [tallyAdd, if_neg hj]
      by_cases h : j = k'
      · have hk : k ≠ k' := fun hk => hj (h.trans hk.symm)
        simp [total, h, hk]
      · simpa [total, h] using ih

/-- The totals of the keys that satisfy a condition move by the amount of such a key. -/
theorem sum_tallyAdd (l : List (κ × M)) (k : κ) (v : M) (p : κ → Prop) [DecidablePred p] :
    (((tallyAdd l k v).filter (p ·.1)).map Prod.snd).sum =
      ((l.filter (p ·.1)).map Prod.snd).sum + if p k then v else 0 := by
  induction l with
  | nil => by_cases h : p k <;> simp [tallyAdd, h]
  | cons e l ih =>
    obtain ⟨j, w⟩ := e
    by_cases hj : j = k
    · subst hj
      by_cases h : p j <;> simp [tallyAdd, h, add_right_comm]
    · rw [tallyAdd, if_neg hj]
      by_cases h : p j <;> simp [h, ih, add_assoc]

/-- Totals taken through additive maps move by the map of the amount. -/
theorem sum_map_tallyAdd {N : Type*} [AddCommMonoid N] (f : κ → M →+ N) (l : List (κ × M)) (k : κ)
    (v : M) :
    ((tallyAdd l k v).map fun e => f e.1 e.2).sum = (l.map fun e => f e.1 e.2).sum + f k v := by
  induction l with
  | nil => simp [tallyAdd]
  | cons e l ih =>
    obtain ⟨j, w⟩ := e
    by_cases hj : j = k
    · subst hj
      simp [tallyAdd, add_right_comm]
    · rw [tallyAdd, if_neg hj, List.map_cons, List.sum_cons, ih, List.map_cons, List.sum_cons,
        add_assoc]

/-- A sum over some entries of a list depends on what each entry contributes. -/
theorem sum_filter_congr {α : Type*} {l : List α} {p q : α → Prop} [DecidablePred p]
    [DecidablePred q] {f g : α → M}
    (h : ∀ a ∈ l, (if p a then f a else 0) = if q a then g a else 0) :
    ((l.filter p).map f).sum = ((l.filter q).map g).sum := by
  have hite : ∀ (p : α → Prop) [DecidablePred p] (f : α → M),
      ((l.filter p).map f).sum = (l.map fun a => if p a then f a else 0).sum := fun p _ f => by
    simpa using (List.sum_map_ite p f (fun _ => 0) l).symm
  rw [hite p f, hite q g]
  exact congrArg List.sum (List.map_congr_left h)

/-! ### All amounts -/

theorem tally_concat (entries : List (κ × M)) (e : κ × M) :
    tally (entries ++ [e]) = tallyAdd (tally entries) e.1 e.2 := by
  rw [tally, List.foldl_append]
  rfl

/-- The total of a key is the sum of its amounts. -/
theorem total_tally (entries : List (κ × M)) (k : κ) :
    total (tally entries) k = ((entries.filter (·.1 = k)).map Prod.snd).sum := by
  induction entries using List.reverseRecOn with
  | nil => rfl
  | append_singleton entries e ih =>
    rw [tally_concat, total_tallyAdd, ih, List.filter_append, List.map_append, List.sum_append]
    by_cases h : e.1 = k <;> simp [h]

theorem nodup_keys_tally (entries : List (κ × M)) : ((tally entries).map Prod.fst).Nodup := by
  induction entries using List.reverseRecOn with
  | nil => exact List.nodup_nil
  | append_singleton entries e ih =>
    rw [tally_concat]
    exact nodup_keys_tallyAdd ih _ _

theorem mem_keys_tally {entries : List (κ × M)} {k : κ} :
    k ∈ (tally entries).map Prod.fst ↔ k ∈ entries.map Prod.fst := by
  induction entries using List.reverseRecOn with
  | nil => rfl
  | append_singleton entries e ih =>
    rw [tally_concat, keys_tallyAdd, List.map_append, List.mem_append, ← ih]
    split_ifs with he
    · refine ⟨Or.inl, ?_⟩
      rintro (h | h)
      · exact h
      · rw [List.map_cons, List.map_nil, List.mem_singleton] at h
        exact h ▸ he
    · rw [List.mem_append, List.map_cons, List.map_nil]

/-- The totals taken through additive maps are the amounts taken through them. -/
theorem sum_map_tally {N : Type*} [AddCommMonoid N] (f : κ → M →+ N) (entries : List (κ × M)) :
    ((tally entries).map fun e => f e.1 e.2).sum = (entries.map fun e => f e.1 e.2).sum := by
  induction entries using List.reverseRecOn with
  | nil => rfl
  | append_singleton entries e ih =>
    rw [tally_concat, sum_map_tallyAdd, ih, List.map_append, List.sum_append, List.map_singleton,
      List.sum_singleton]

/-- The total of a key is the one that stands with it. -/
theorem total_of_mem {l : List (κ × M)} (h : (l.map Prod.fst).Nodup) {e : κ × M} (he : e ∈ l) :
    total l e.1 = e.2 := by
  induction l with
  | nil => exact absurd he List.not_mem_nil
  | cons e' l ih =>
    rw [List.map_cons, List.nodup_cons] at h
    rcases List.mem_cons.mp he with rfl | he
    · simp [total]
    · have hne : e'.1 ≠ e.1 := fun heq => h.1 (heq ▸ List.mem_map_of_mem he)
      simpa [total, hne] using ih h.2 he

/-- The totals of some keys together are the amounts of these keys together. -/
theorem sum_tally (entries : List (κ × M)) (p : κ → Prop) [DecidablePred p] :
    (((tally entries).filter (p ·.1)).map Prod.snd).sum =
      ((entries.filter (p ·.1)).map Prod.snd).sum := by
  induction entries using List.reverseRecOn with
  | nil => rfl
  | append_singleton entries e ih =>
    rw [tally_concat, sum_tallyAdd, ih, List.filter_append, List.map_append, List.sum_append]
    by_cases h : p e.1 <;> simp [h]

/-- An amount at one key, summed over keys each of which is named once. -/
theorem sum_indicator {keys : List κ} (hnodup : keys.Nodup) (k : κ) (v : M) :
    (keys.map fun k' => if k = k' then v else 0).sum = if k ∈ keys then v else 0 := by
  induction keys with
  | nil => rfl
  | cons k' keys ih =>
    obtain ⟨hk', hkeys⟩ := List.nodup_cons.mp hnodup
    rw [List.map_cons, List.sum_cons, ih hkeys]
    by_cases h : k = k'
    · subst h
      rw [if_pos rfl, if_neg hk', if_pos List.mem_cons_self, add_zero]
    · rw [if_neg h, zero_add]
      simp only [List.mem_cons, h, false_or]

/-- The totals of keys that cover all amounts are all amounts together, when each key is named
once. -/
theorem sum_total_tally (entries : List (κ × M)) {keys : List κ} (hnodup : keys.Nodup)
    (hcover : ∀ e ∈ entries, e.1 ∈ keys) :
    (keys.map (total (tally entries))).sum = (entries.map Prod.snd).sum := by
  induction entries using List.reverseRecOn with
  | nil =>
    refine List.sum_eq_zero fun x hx => ?_
    obtain ⟨k, -, rfl⟩ := List.mem_map.mp hx
    rfl
  | append_singleton entries e ih =>
    rw [List.forall_mem_append, List.forall_mem_singleton] at hcover
    have hsplit : ∀ k, total (tally (entries ++ [e])) k =
        total (tally entries) k + if e.1 = k then e.2 else 0 := fun k => by
      rw [tally_concat, total_tallyAdd]
    -- The last amount adds to the one key it came with.
    have hlast : (keys.map fun k => if e.1 = k then e.2 else 0).sum = e.2 := by
      rw [sum_indicator hnodup, if_pos hcover.2]
    calc (keys.map (total (tally (entries ++ [e])))).sum
        = (keys.map (total (tally entries))).sum +
            (keys.map fun k => if e.1 = k then e.2 else 0).sum := by
          rw [← List.sum_map_add]
          exact congrArg List.sum (List.map_congr_left fun k _ => hsplit k)
      _ = (entries.map Prod.snd).sum + e.2 := by rw [ih hcover.1, hlast]
      _ = ((entries ++ [e]).map Prod.snd).sum := by
          rw [List.map_append, List.sum_append, List.map_singleton, List.sum_singleton]

/-! ### Sums over parts -/

section Order

variable {α : Type*} [PartialOrder M] [IsOrderedCancelAddMonoid M] {p q : α → Prop}
  [DecidablePred p] [DecidablePred q] {f : α → M}

/-- A part has at most the sum of a larger part when no entry is negative. -/
theorem sum_filter_le {l : List α} (hpq : ∀ a ∈ l, p a → q a) (hf : ∀ a ∈ l, 0 ≤ f a) :
    ((l.filter p).map f).sum ≤ ((l.filter q).map f).sum := by
  induction l with
  | nil => simp
  | cons a l ih =>
    have hl := ih (fun b hb => hpq b (.tail a hb)) fun b hb => hf b (.tail a hb)
    by_cases hp : p a
    · simpa [hp, hpq a (.head l) hp] using hl
    · by_cases hq : q a
      · simpa [hp, hq] using hl.trans (le_add_of_nonneg_left (hf a (.head l)))
      · simpa [hp, hq] using hl

/-- Two parts, one within the other, have one sum when they have the same entries other than
zero. -/
theorem sum_filter_eq_iff {l : List α} (hpq : ∀ a ∈ l, p a → q a) (hf : ∀ a ∈ l, 0 ≤ f a) :
    ((l.filter p).map f).sum = ((l.filter q).map f).sum ↔ ∀ a ∈ l, f a ≠ 0 → (p a ↔ q a) := by
  induction l with
  | nil => simp
  | cons a l ih =>
    have hpq' : ∀ b ∈ l, p b → q b := fun b hb => hpq b (.tail a hb)
    have hf' : ∀ b ∈ l, 0 ≤ f b := fun b hb => hf b (.tail a hb)
    rw [List.forall_mem_cons]
    by_cases hp : p a
    · have hq := hpq a (.head l) hp
      simp [hp, hq, ih hpq' hf']
    · by_cases hq : q a
      · have hle := sum_filter_le hpq' hf'
        simp only [hp, hq, decide_false, decide_true, not_false_eq_true, List.filter_cons_of_neg,
          List.filter_cons_of_pos, Bool.false_eq_true, List.map_cons, List.sum_cons, false_iff,
          not_true_eq_false, imp_false, not_not]
        rw [← ih hpq' hf']
        constructor
        · intro h
          have hzero : f a = 0 := by
            refine le_antisymm ?_ (hf a (.head l))
            rw [h] at hle
            exact le_of_add_le_add_right (hle.trans_eq (zero_add _).symm)
          exact ⟨hzero, by rw [h, hzero, zero_add]⟩
        · rintro ⟨hzero, h⟩
          rw [h, hzero, zero_add]
      · simp [hp, hq, ih hpq' hf']

end Order

end Pfv
