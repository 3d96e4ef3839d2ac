import Mathlib.Tactic

/-!
# Reading page after page

A client reads a list in pages of `n` entries: it asks for the page at offset 0, at offset `n` and
so on, and stops at the first page that is short.

## Main definitions

* `PagesRead`: what a client has read from an offset on, when it stops.

## Main results

* `PagesRead.unique`: a client reads one list at most.
* `pagesRead_iff`: the pages of a list, one after the other, are the list.
-/

namespace Pfv

variable {α : Type*}

/-- Reading page after page of `n` entries from an offset on returns a list. -/
inductive PagesRead (page : ℕ → List α) (n : ℕ) : ℕ → List α → Prop
  | last (offset : ℕ) (h : (page offset).length < n) : PagesRead page n offset (page offset)
  | more (offset : ℕ) {rest : List α} (h : n ≤ (page offset).length)
      (hrest : PagesRead page n (offset + n) rest) :
      PagesRead page n offset (page offset ++ rest)

theorem PagesRead.unique {page : ℕ → List α} {n offset : ℕ} {l l' : List α}
    (h : PagesRead page n offset l) (h' : PagesRead page n offset l') : l = l' := by
  induction h generalizing l' with
  | last offset hshort =>
    cases h' with
    | last => rfl
    | more _ hfull => omega
  | more offset hfull _ ih =>
    cases h' with
    | last _ hshort => omega
    | more _ _ hrest => rw [ih hrest]

theorem pagesRead_drop (l : List α) {n : ℕ} (hn : 0 < n) (offset : ℕ) :
    PagesRead (fun offset => (l.drop offset).take n) n offset (l.drop offset) := by
  -- the entries that are left decrease with every full page
  induction hleft : l.length - offset using Nat.strong_induction_on generalizing offset with
  | h left ih =>
    have hpage : ((l.drop offset).take n).length = min n (l.length - offset) := by simp
    by_cases hshort : l.length - offset < n
    · have hall : (l.drop offset).take n = l.drop offset :=
        List.take_of_length_le (by rw [List.length_drop]; omega)
      have hlast : PagesRead (fun offset => (l.drop offset).take n) n offset
          ((l.drop offset).take n) := .last offset (by omega)
      rwa [hall] at hlast
    · have hmore : PagesRead (fun offset => (l.drop offset).take n) n offset
          ((l.drop offset).take n ++ l.drop (offset + n)) :=
        .more offset (by omega) (ih (l.length - (offset + n)) (by omega) (offset + n) rfl)
      rwa [← List.drop_drop, List.take_append_drop] at hmore

/-- The pages of a list, read one after the other, are the list. -/
theorem pagesRead_iff {l r : List α} {n : ℕ} (hn : 0 < n) :
    PagesRead (fun offset => (l.drop offset).take n) n 0 r ↔ r = l :=
  ⟨fun h => h.unique (pagesRead_drop l hn 0), fun h => h ▸ pagesRead_drop l hn 0⟩

end Pfv
