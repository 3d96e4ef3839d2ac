import Pfv.Base.Fields
import Pfv.Services.Categories
import Pfv.Services.ImportParser

/-!
# Structured category errors

The handlers that turn the text of a conflict of the category service into a structured answer
(`backend/app/routers/categories.py`). The texts carry identifiers and names between colons.

## Main definitions

* `intOfString`: `int` of a string.
* `nameCollisionResponse`, `hasChildrenResponse`: the decoders, without the constant `detail` field
  of their answers.

## Main results

* `intOfString_toString`: a number is read back from its text.
-/

namespace Pfv

/-! ### Numbers in a text -/

/-- `int` of a string: white space around it, a sign, digits of any script, and single underscores
between digits. -/
def intOfString (s : String) : Option ℤ :=
  let (negative, digits) := Decimal.sign (strip s).toList
  let groups := digits.splitOn '_'
  if groups.any (·.isEmpty) then none
  else (intOfDigits groups.flatten).map fun (n : ℕ) => if negative then -(n : ℤ) else n

theorem decimalDigit_of_isDigit {c : Char} (h : c.isDigit = true) :
    decimalDigit c = some (c.toNat - 48) := by
  simp only [Char.isDigit, ge_iff_le, Bool.and_eq_true, decide_eq_true_eq] at h
  have hlower : 0x30 ≤ c.toNat := by simpa [UInt32.le_iff_toNat_le] using h.1
  have hupper : c.toNat ≤ 0x39 := by simpa [UInt32.le_iff_toNat_le] using h.2
  have hrange : 0x30 ≤ c.toNat ∧ c.toNat < 0x30 + 10 := ⟨hlower, by omega⟩
  rw [decimalDigit, decimalZeros, List.find?_cons_of_pos (by simpa using hrange), Option.map_some]

theorem intOfDigits_of_isDigit {cs : List Char} (h : ∀ c ∈ cs, c.isDigit = true) :
    intOfDigits cs = some (Nat.ofDigitChars 10 cs 0) := by
  have hmap : cs.mapM decimalDigit = some (cs.map fun c => c.toNat - 48) := by
    induction cs with
    | nil => rfl
    | cons c cs ih =>
      rw [List.mapM_cons, decimalDigit_of_isDigit (h c List.mem_cons_self),
        ih fun d hd => h d (List.mem_cons_of_mem c hd)]
      rfl
  rw [intOfDigits, hmap, Option.map_some, ofDigits, List.foldl_map, Nat.ofDigitChars_eq_foldl]
  rfl

/-- A character that `int` reads as itself: no blank, no sign, no underscore. -/
theorem plain_of_isDigit {c : Char} (h : c.isDigit = true) :
    isSpace c = false ∧ c ≠ '-' ∧ c ≠ '+' ∧ c ≠ '_' ∧ c ≠ ':' ∧ c ≠ '|' := by
  simp only [Char.isDigit, ge_iff_le, Bool.and_eq_true, decide_eq_true_eq] at h
  have hlower : 0x30 ≤ c.toNat := by simpa [UInt32.le_iff_toNat_le] using h.1
  have hupper : c.toNat ≤ 0x39 := by simpa [UInt32.le_iff_toNat_le] using h.2
  refine ⟨?_, ?_, ?_, ?_, ?_, ?_⟩
  · unfold isSpace
    simp
    omega
  all_goals
    rintro rfl
    revert hlower hupper
    decide

theorem strip_eq_self {s : String} (h : ∀ c ∈ s.toList, isSpace c = false) : strip s = s := by
  have hdrop : ∀ cs : List Char, (∀ c ∈ cs, isSpace c = false) → cs.dropWhile isSpace = cs := by
    intro cs hcs
    cases cs with
    | nil => rfl
    | cons c cs => rw [List.dropWhile_cons_of_neg (by simp [hcs c List.mem_cons_self])]
  unfold strip
  rw [hdrop _ h, hdrop _ fun c hc => h c (List.mem_reverse.mp hc), List.reverse_reverse,
    String.ofList_toList]

/-- A number is read back from its text. -/
theorem intOfString_toString (n : ℕ) : intOfString (toString n) = some (n : ℤ) := by
  have hlist : (toString n).toList = Nat.toDigits 10 n := Nat.toList_repr
  have hdigit : ∀ c ∈ Nat.toDigits 10 n, c.isDigit = true := fun c hc =>
    Nat.isDigit_of_mem_toDigits (by decide) (by decide) hc
  obtain ⟨c, cs, hcs⟩ := List.exists_cons_of_ne_nil (Nat.toDigits_ne_nil (n := n) (b := 10))
  have hsign : Decimal.sign (Nat.toDigits 10 n) = (false, Nat.toDigits 10 n) := by
    have hc := plain_of_isDigit (hdigit c (hcs ▸ List.mem_cons_self))
    rw [hcs]
    unfold Decimal.sign
    split <;> simp_all
  have hsplit : (Nat.toDigits 10 n).splitOn '_' = [Nat.toDigits 10 n] :=
    List.splitOn_eq_singleton fun h => (plain_of_isDigit (hdigit '_' h)).2.2.2.1 rfl
  unfold intOfString
  rw [strip_eq_self fun c hc => (plain_of_isDigit (hdigit c (hlist ▸ hc))).1, hlist, hsign]
  dsimp only
  rw [hsplit, if_neg (by simp [Nat.toDigits_ne_nil]), List.flatten_singleton,
    intOfDigits_of_isDigit hdigit, Nat.ofDigitChars_ten_toDigits]
  rfl

/-! ### Handlers -/

/-- The fields of a `name_collision` answer. -/
structure NameCollision where
  targetParentId : ℤ
  conflictingChildId : ℤ
  conflictingChildName : String
  normalizedName : String
  deriving DecidableEq

/-- Decode the text of a `name_collision` conflict. A text with too few fields, or without numbers
where identifiers are expected, is answered without fields. -/
def nameCollisionResponse (detail : String) : Option NameCollision :=
  match (splitMax "::".toList 4 detail.toList).map String.ofList with
  | _ :: target :: child :: name :: normalized :: _ => do
      let targetParentId ← intOfString target
      let conflictingChildId ← intOfString child
      pure ⟨targetParentId, conflictingChildId, name, normalized⟩
  | _ => none

/-- The fields of a `has_children` answer. -/
structure HasChildren where
  childIds : List ℤ
  childNames : List String
  deriving DecidableEq

/-- One child of a `has_children` conflict. Entries without a bar or without a number before it are
skipped. -/
def childEntry (entry : List Char) : Option (ℤ × String) := do
  let (cid, name) ← cutAt ['|'] entry
  let cid ← intOfString (String.ofList cid)
  pure (cid, String.ofList name)

/-- Decode the text of a `has_children` conflict. -/
def hasChildrenResponse (detail : String) : HasChildren :=
  let children :=
    match splitMax "::".toList 1 detail.toList with
    | _ :: payload :: _ => (payload.splitOn ':').filterMap childEntry
    | _ => []
  { childIds := children.map Prod.fst, childNames := children.map Prod.snd }

end Pfv
