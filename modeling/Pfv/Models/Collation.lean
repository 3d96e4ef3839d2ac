import Pfv.Base.Like
import Pfv.Models.Tags

/-!
# Comparing texts in the database

How MySQL compares two texts is the collation of their columns. The repository leaves it to the
server, whose default is `utf8mb4_0900_ai_ci`; here it is a parameter of the queries that compare
texts. `LIKE` compares character by character, while `=` and `IN` compare texts as a whole.

## Main definitions

* `Collation`: what the database compares of characters and of texts.
* `Collation.Equal`, `Collation.like`: the operators `=` and `LIKE`.
-/

namespace Pfv

/-- Characters with the same key are the same to `LIKE`, and texts with the same weights are equal.
The characters of tag names are told apart. -/
structure Collation where
  key : Char → Char
  weights : String → List ℕ
  key_injOn : Set.InjOn key {c | tagNameChar c = true}
  weights_injOn : Set.InjOn weights {s | s.toList.all tagNameChar = true}

/-- The operator `=`. -/
def Collation.Equal (col : Collation) (s t : String) : Prop := col.weights s = col.weights t

instance (col : Collation) (s t : String) : Decidable (col.Equal s t) :=
  inferInstanceAs (Decidable (_ = _))

/-- The operator `LIKE`. -/
def Collation.like (col : Collation) (pattern : List Char) (s : String) : Bool :=
  Like.Matches col.key (Like.parse pattern) s.toList

theorem toLower_of_tagNameChar {c : Char} (h : tagNameChar c = true) : c.toLower = c := by
  have hrange : ¬(65 ≤ c.toNat ∧ c.toNat ≤ 90) := by
    simp only [tagNameChar, decide_eq_true_eq] at h
    rcases h with ⟨ha, -⟩ | ⟨-, h9⟩ | rfl | rfl
    · have hge : 97 ≤ c.toNat := ha
      omega
    · have hle : c.toNat ≤ 57 := h9
      omega
    · decide
    · decide
  exact dif_neg hrange

/-- A character of tag names means itself in a pattern. -/
theorem plain_of_tagNameChar {c : Char} (h : tagNameChar c = true) : Like.Plain c := by
  refine ⟨?_, ?_, ?_⟩ <;>
  · rintro rfl
    exact absurd h (by decide)

/-- Texts of characters of tag names are told apart by their keys. -/
theorem Collation.map_key_injOn (col : Collation) {l l' : List Char}
    (hl : ∀ c ∈ l, tagNameChar c = true) (hl' : ∀ c ∈ l', tagNameChar c = true)
    (h : l.map col.key = l'.map col.key) : l = l' := by
  induction l generalizing l' with
  | nil => exact (List.map_eq_nil_iff.mp h.symm).symm
  | cons c l ih =>
    cases l' with
    | nil => simp at h
    | cons d l' =>
      obtain ⟨hc, hl⟩ := List.forall_mem_cons.mp hl
      obtain ⟨hd, hl'⟩ := List.forall_mem_cons.mp hl'
      obtain ⟨hkey, hrest⟩ := List.cons.inj h
      rw [col.key_injOn hc hd hkey, ih hl hl' hrest]

/-- A collation that ignores the case of letters. -/
def caseInsensitive : Collation where
  key := Char.toLower
  weights s := s.toList.map (·.toLower.toNat)
  key_injOn c hc d hd h := by
    simpa only [toLower_of_tagNameChar hc, toLower_of_tagNameChar hd] using h
  weights_injOn s hs t ht h := by
    have hlower : ∀ u : String, u.toList.all tagNameChar = true →
        u.toList.map (·.toLower.toNat) = u.toList.map Char.toNat := fun u hu =>
      List.map_congr_left fun c hc => by rw [toLower_of_tagNameChar (List.all_eq_true.mp hu c hc)]
    have h : s.toList.map Char.toNat = t.toList.map Char.toNat :=
      (hlower s hs).symm.trans (h.trans (hlower t ht))
    exact String.toList_inj.mp (List.map_injective_iff.mpr (fun _ _ => Char.toNat_inj.mp) h)

end Pfv
