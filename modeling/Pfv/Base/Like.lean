import Mathlib.Tactic

/-!
# Patterns of `LIKE`

A pattern of the SQL operator `LIKE`: `%` stands for any run of characters, `_` for one character,
and a backslash takes the character after it as it is. Characters are compared through a key: a
collation does not tell characters with the same key apart.

## Main definitions

* `Like.Token`, `Like.parse`: the tokens of a pattern.
* `Like.Matches`: a text matches a pattern.
* `Like.Literal`: a text without characters that mean something in a pattern.
* `Like.escape`: a text with every occurrence of a character escaped.

## Main results

* `Like.matches_infix_iff`: with a literal text between two `%`, a pattern matches the texts that
  contain it.
* `Like.matches_infix_forall_iff`: it matches the texts that contain it through another key just
  when the keys agree on its characters and it is literal.
* `Like.parse_escaped`: an escaped text stands for its characters.
-/

namespace Pfv.Like

inductive Token
  | any
  | one
  | char (c : Char)
  deriving DecidableEq

def parse : List Char → List Token
  | [] => []
  | ['\\'] => [.char '\\']
  | '\\' :: c :: l => .char c :: parse l
  | '%' :: l => .any :: parse l
  | '_' :: l => .one :: parse l
  | c :: l => .char c :: parse l

/-- A character that stands for itself in a pattern. -/
def Plain (c : Char) : Prop := c ≠ '%' ∧ c ≠ '_' ∧ c ≠ '\\'

instance : DecidablePred Plain := fun _ => inferInstanceAs (Decidable (_ ∧ _))

/-- A text without characters that mean something in a pattern. -/
def Literal (text : List Char) : Prop := ∀ c ∈ text, Plain c

instance : DecidablePred Literal := fun text => inferInstanceAs (Decidable (∀ c ∈ text, Plain c))

theorem parse_cons_of_plain {c : Char} (hc : Plain c) (l : List Char) :
    parse (c :: l) = .char c :: parse l := by
  obtain ⟨hpercent, hunderscore, hbackslash⟩ := hc
  rw [parse]
  · exact fun h _ => hbackslash h
  · exact fun _ _ h _ => hbackslash h
  · exact fun h => hpercent h
  · exact fun h => hunderscore h

theorem parse_append_of_literal {text : List Char} (h : Literal text) (l : List Char) :
    parse (text ++ l) = text.map .char ++ parse l := by
  induction text with
  | nil => rfl
  | cons c text ih =>
    rw [List.cons_append, parse_cons_of_plain (h c List.mem_cons_self),
      ih fun d hd => h d (List.mem_cons_of_mem c hd)]
    rfl

/-- `text.replace(c, "\\" + c)`. -/
def escape (c : Char) (text : List Char) : List Char :=
  text.flatMap fun d => if d = c then ['\\', c] else [d]

theorem parse_escape_cons (c : Char) (l : List Char) :
    parse (escape '_' (escape '%' (escape '\\' [c])) ++ l) = .char c :: parse l := by
  by_cases hbackslash : c = '\\'
  · rw [hbackslash]
    rfl
  by_cases hpercent : c = '%'
  · rw [hpercent]
    rfl
  by_cases hunderscore : c = '_'
  · rw [hunderscore]
    rfl
  have hsame : escape '_' (escape '%' (escape '\\' [c])) = [c] := by
    simp [escape, hbackslash, hpercent, hunderscore]
  rw [hsame, List.singleton_append, parse_cons_of_plain ⟨hpercent, hunderscore, hbackslash⟩]

/-- A text whose backslashes, `%` and `_` are escaped in this order stands for its characters. -/
theorem parse_escaped (text l : List Char) :
    parse (escape '_' (escape '%' (escape '\\' text)) ++ l) = text.map .char ++ parse l := by
  have happend : ∀ c (a b : List Char), escape c (a ++ b) = escape c a ++ escape c b :=
    fun c a b => List.flatMap_append
  induction text with
  | nil => rfl
  | cons c text ih =>
    rw [← List.singleton_append, happend, happend, happend, List.append_assoc,
      parse_escape_cons, ih]
    rfl

section Matching

variable {κ : Type*} [DecidableEq κ] (key : Char → κ)

/-- The text matches the pattern. -/
def Matches : List Token → List Char → Bool
  | [], s => s.isEmpty
  | .any :: ts, s => s.tails.any (Matches ts)
  | .one :: ts, s =>
      match s with
      | [] => false
      | _ :: s => Matches ts s
  | .char c :: ts, s =>
      match s with
      | [] => false
      | d :: s => key c = key d && Matches ts s

variable {key}

theorem matches_any {ts : List Token} {s : List Char} :
    Matches key (.any :: ts) s = true ↔ ∃ s', s' <:+ s ∧ Matches key ts s' = true := by
  simp [Matches, List.mem_tails]

/-- A pattern that begins with characters matches the texts that begin with them. -/
theorem matches_chars_append {text : List Char} {ts : List Token} {s : List Char} :
    Matches key (text.map .char ++ ts) s = true ↔
      ∃ front s', s = front ++ s' ∧ front.map key = text.map key ∧ Matches key ts s' = true := by
  induction text generalizing s with
  | nil => simp
  | cons c text ih =>
    cases s with
    | nil => simp [Matches]
    | cons d s =>
      simp only [List.map_cons, List.cons_append, Matches, Bool.and_eq_true, decide_eq_true_eq, ih]
      constructor
      · rintro ⟨hkey, front, s', rfl, hfront, hrest⟩
        exact ⟨d :: front, s', rfl, by rw [List.map_cons, hkey, hfront], hrest⟩
      · rintro ⟨front, s', hs, hfront, hrest⟩
        cases front with
        | nil => simp at hfront
        | cons e front =>
          obtain ⟨rfl, rfl⟩ := List.cons.inj hs
          rw [List.map_cons] at hfront
          obtain ⟨hkey, hfront⟩ := List.cons.inj hfront
          exact ⟨hkey.symm, front, s', rfl, hfront, hrest⟩

/-- `%` at the end of a pattern matches whatever is left. -/
theorem matches_any_nil (s : List Char) : Matches key [.any] s = true :=
  matches_any.mpr ⟨[], List.nil_suffix, rfl⟩

/-- Characters before `%` match the texts that begin with them. -/
theorem matches_chars_any {text s : List Char} :
    Matches key (text.map .char ++ [.any]) s = true ↔ text.map key <+: s.map key := by
  simp only [matches_chars_append, matches_any_nil, and_true]
  constructor
  · rintro ⟨front, after, rfl, hfront⟩
    exact ⟨after.map key, by rw [← hfront, List.map_append]⟩
  · rintro ⟨after, hs⟩
    obtain ⟨front, rest, rfl, hfront, -⟩ := List.map_eq_append_iff.mp hs.symm
    exact ⟨front, rest, rfl, hfront⟩

omit [DecidableEq κ] in
/-- A text contains another one through a key when it has a part with the same keys. -/
theorem map_infix_map_iff {text s : List Char} :
    text.map key <:+: s.map key ↔
      ∃ before l after, s = before ++ l ++ after ∧ l.map key = text.map key := by
  constructor
  · rintro ⟨before, after, hs⟩
    obtain ⟨s₁, s₂, rfl, hbefore, -⟩ := List.map_eq_append_iff.mp hs.symm
    obtain ⟨s₀, l, rfl, -, hl⟩ := List.map_eq_append_iff.mp hbefore
    exact ⟨s₀, l, s₂, rfl, hl⟩
  · rintro ⟨before, l, after, rfl, hl⟩
    exact ⟨before.map key, after.map key, by rw [← hl]; simp⟩

/-- Characters between two `%` match the texts that contain them. -/
theorem matches_any_chars_any {text s : List Char} :
    Matches key (.any :: (text.map .char ++ [.any])) s = true ↔ text.map key <:+: s.map key := by
  simp only [matches_any, matches_chars_append, matches_any_nil, and_true, map_infix_map_iff]
  constructor
  · rintro ⟨_, ⟨before, rfl⟩, front, after, rfl, hfront⟩
    exact ⟨before, front, after, by simp, hfront⟩
  · rintro ⟨before, front, after, rfl, hfront⟩
    exact ⟨front ++ after, ⟨before, by simp⟩, front, after, rfl, hfront⟩

/-- A pattern with a literal text between two `%` matches the texts that contain it. -/
theorem matches_infix_iff {text : List Char} (h : Literal text) {s : List Char} :
    Matches key (parse ('%' :: text ++ ['%'])) s = true ↔ text.map key <:+: s.map key := by
  have hparse : parse ('%' :: text ++ ['%']) = .any :: (text.map .char ++ [.any]) := by
    rw [List.cons_append, parse, parse_append_of_literal h]
    rfl
  rw [hparse, matches_any_chars_any]

/-- The shortest text that a pattern matches: nothing for `%`, an `a` for `_`. -/
def shortest : List Token → List Char
  | [] => []
  | .any :: ts => shortest ts
  | .one :: ts => 'a' :: shortest ts
  | .char c :: ts => c :: shortest ts

theorem matches_shortest (ts : List Token) : Matches key ts (shortest ts) = true := by
  induction ts with
  | nil => rfl
  | cons t ts ih =>
    cases t with
    | any => exact matches_any.mpr ⟨shortest ts, List.suffix_refl _, ih⟩
    | one => exact ih
    | char c => simpa [Matches, shortest] using ih

omit [DecidableEq κ] in
/-- The shortest match of a text before `%` is no longer than the text, and when it has the same
keys the text is literal. -/
theorem shortest_parse (hone : key 'a' ≠ key '_') (hchar : key '%' ≠ key '\\') (text : List Char) :
    (shortest (parse (text ++ ['%']))).length ≤ text.length ∧
      ((shortest (parse (text ++ ['%']))).map key = text.map key → Literal text) := by
  induction text using parse.induct with
  | case1 => simp [parse, shortest, Literal]
  | case2 => simp [parse, shortest, hchar]
  | case3 c l ih =>
    have hparse : shortest (parse ('\\' :: c :: l ++ ['%'])) = c :: shortest (parse (l ++ ['%'])) :=
      rfl
    rw [hparse]
    refine ⟨by simp only [List.length_cons]; omega, fun h => ?_⟩
    have := congrArg List.length h
    simp only [List.length_map, List.length_cons] at this
    omega
  | case4 l ih =>
    have hparse : shortest (parse ('%' :: l ++ ['%'])) = shortest (parse (l ++ ['%'])) := rfl
    rw [hparse]
    refine ⟨by simp only [List.length_cons]; omega, fun h => ?_⟩
    have := congrArg List.length h
    simp only [List.length_map, List.length_cons] at this
    omega
  | case5 l ih =>
    have hparse : shortest (parse ('_' :: l ++ ['%'])) = 'a' :: shortest (parse (l ++ ['%'])) := rfl
    rw [hparse]
    refine ⟨by simp only [List.length_cons]; omega, fun h => ?_⟩
    rw [List.map_cons, List.map_cons] at h
    exact absurd (List.cons.inj h).1 hone
  | case6 c l hbackslash hescape hpercent hunderscore ih =>
    have hc : Plain c := ⟨hpercent, hunderscore, fun h => ?_⟩
    · have hparse : shortest (parse (c :: l ++ ['%'])) = c :: shortest (parse (l ++ ['%'])) := by
        rw [List.cons_append, parse_cons_of_plain hc]
        rfl
      rw [hparse]
      refine ⟨by simp only [List.length_cons]; omega, fun h => ?_⟩
      rw [List.map_cons, List.map_cons] at h
      exact List.forall_mem_cons.mpr ⟨hc, ih.2 (List.cons.inj h).2⟩
    · cases l with
      | nil => exact hbackslash h rfl
      | cons d l => exact hescape d l h rfl

/-- With a text between two `%` that is not literal, a pattern matches a text that does not contain
it, whatever other key the texts are compared through. -/
theorem exists_matches_lacking {κ' : Type*} {key' : Char → κ'} (hone : key' 'a' ≠ key' '_')
    (hchar : key' '%' ≠ key' '\\') {text : List Char} (h : ¬Literal text) :
    ∃ s, Matches key (parse ('%' :: text ++ ['%'])) s = true ∧
      ¬text.map key' <:+: s.map key' := by
  obtain ⟨hlength, hliteral⟩ := shortest_parse hone hchar text
  refine ⟨shortest (parse (text ++ ['%'])), ?_, fun hwithin => h (hliteral ?_)⟩
  · exact matches_any.mpr ⟨_, List.suffix_refl _, matches_shortest _⟩
  · exact (hwithin.eq_of_length_le (by simpa using hlength)).symm

/-- Two keys agree on a character: they tell it apart from the same other characters. -/
def AgreeOn {κ' : Type*} (key : Char → κ) (key' : Char → κ') (c : Char) : Prop :=
  ∀ d, key d = key c ↔ key' d = key' c

omit [DecidableEq κ] in
theorem map_eq_map_congr {κ' : Type*} {key' : Char → κ'} {text : List Char}
    (h : ∀ c ∈ text, AgreeOn key key' c) (l : List Char) :
    l.map key = text.map key ↔ l.map key' = text.map key' := by
  induction text generalizing l with
  | nil => simp
  | cons c text ih =>
    obtain ⟨hc, htext⟩ := List.forall_mem_cons.mp h
    cases l with
    | nil => simp
    | cons d l => simp only [List.map_cons, List.cons.injEq, hc d, ih htext l]

omit [DecidableEq κ] in
/-- A text with one character replaced contains the text just when the two have the same key. -/
theorem map_replace_infix_iff {before after : List Char} {c d : Char} :
    (before ++ c :: after).map key <:+: (before ++ d :: after).map key ↔ key d = key c := by
  constructor
  · intro hwithin
    have heq := hwithin.eq_of_length (by simp)
    simp only [List.map_append, List.map_cons, List.append_cancel_left_eq, List.cons.injEq,
      and_true] at heq
    exact heq.symm
  · intro hkey
    simp [hkey]

/-- A pattern with a text between two `%` matches the texts that contain it through another key just
when the text is literal and the keys agree on its characters. -/
theorem matches_infix_forall_iff {κ' : Type*} {key' : Char → κ'} (hone : key' 'a' ≠ key' '_')
    (hchar : key' '%' ≠ key' '\\') {text : List Char} :
    (∀ s, Matches key (parse ('%' :: text ++ ['%'])) s = true ↔ text.map key' <:+: s.map key') ↔
      Literal text ∧ ∀ c ∈ text, AgreeOn key key' c := by
  constructor
  · intro h
    have hliteral : Literal text := by
      by_contra hpattern
      obtain ⟨s, hmatches, hlacks⟩ :=
        @exists_matches_lacking _ _ key _ _ hone hchar _ hpattern
      exact hlacks ((h s).mp hmatches)
    refine ⟨hliteral, fun c hc d => ?_⟩
    obtain ⟨before, after, rfl⟩ := List.append_of_mem hc
    have hreplaced := (matches_infix_iff hliteral).symm.trans (h (before ++ d :: after))
    rwa [map_replace_infix_iff, map_replace_infix_iff] at hreplaced
  · rintro ⟨hliteral, hagree⟩ s
    rw [matches_infix_iff hliteral, map_infix_map_iff, map_infix_map_iff]
    simp only [map_eq_map_congr hagree]

end Matching

end Pfv.Like
