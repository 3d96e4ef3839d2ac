import Pfv.Services.Normalization

/-!
# The name of a merchant

The loops of `normalize_description` are left, and the name they lead to is a tidy one: words of
letters and digits with single spaces between them, taken from what the text without its markers
has, or the fallback, which keeps all the words of the text.

## Main definitions

* `MerchantName`: what holds of a result, given the `return` it comes from.

## Main results

* `collapsed_eq`: collapsing a text leaves its words, joined.
* `normalizeDescription_returns`: with enough fuel there is a result, and it is a `MerchantName`.
-/

namespace Pfv

/-! ### Collapsing -/

theorem toNat_of_alnum {c : Char} (h : alnum c = true) : 48 ≤ c.toNat ∧ c.toNat ≤ 90 := by
  simp only [alnum, upperLetter, decide_eq_true_eq] at h
  rcases h with ⟨hfirst, hlast⟩ | ⟨hfirst, hlast⟩
  · have h₁ : 65 ≤ c.toNat := hfirst
    have h₂ : c.toNat ≤ 90 := hlast
    omega
  · have h₁ : 48 ≤ c.toNat := hfirst
    have h₂ : c.toNat ≤ 57 := hlast
    omega

theorem alnum_eq_false_of_isSpace {c : Char} (h : isSpace c = true) : alnum c = false := by
  by_contra hc
  have hrange := toNat_of_alnum (Bool.not_eq_false _ ▸ hc)
  simp only [isSpace, decide_eq_true_eq] at h
  omega

theorem isSpace_eq_false_of_alnum {c : Char} (h : alnum c = true) : isSpace c = false := by
  by_contra hc
  rw [alnum_eq_false_of_isSpace (Bool.not_eq_false _ ▸ hc)] at h
  exact absurd h (by decide)

/-- Collapsing a text leaves its words, joined. -/
theorem collapsed_eq (s : List Char) : collapsed s = joinWords ' ' (wordsOf alnum s) := by
  rw [collapsed, nonAlnum, multiSpace, someSpaces, Regex.sub_many, Regex.sub_many]
  set t := squeeze (fun c => !alnum c) ' ' false s with ht
  have hmem : ∀ c ∈ t, alnum c = true ∨ isSpace c = true := by
    intro c hc
    rcases mem_squeeze hc with rfl | ⟨-, halnum⟩
    · exact Or.inr (by decide)
    · exact Or.inl (by simpa using halnum)
  rw [← joinWords_words (by decide) (tidy_trim_squeeze (r := ' ') (by decide) hmem),
    words_trim fun _ => alnum_eq_false_of_isSpace,
    words_squeeze (fun _ => alnum_eq_false_of_isSpace) (by decide), ht,
    words_squeeze (fun _ h => by simpa using h) (by decide)]

/-- Words of letters and digits. -/
def AlnumWords (ws : List (List Char)) : Prop := ∀ w ∈ ws, w ≠ [] ∧ ∀ c ∈ w, alnum c = true

theorem alnumWords_words (s : List Char) : AlnumWords (wordsOf alnum s) :=
  fun _ => ne_nil_of_mem_words

theorem collapsed_eq_nil_iff {s : List Char} : collapsed s = [] ↔ ∀ c ∈ s, alnum c = false := by
  rw [collapsed_eq, ← words_eq_nil_iff]
  refine ⟨fun h => ?_, fun h => by rw [h]; rfl⟩
  cases hw : wordsOf alnum s with
  | nil => rfl
  | cons w ws =>
    rw [hw, joinWords] at h
    have hne := (alnumWords_words s w (hw ▸ List.mem_cons_self)).1
    exact absurd (List.append_eq_nil_iff.mp h).1 hne

/-- Splitting a collapsed text at its spaces gives its words. -/
theorem words_collapsed (s : List Char) :
    wordsOf (fun c => !isSpace c) (collapsed s) = wordsOf alnum s := by
  rw [collapsed_eq]
  refine words_joinWords (by decide) fun w hw => ?_
  obtain ⟨hne, halnum⟩ := alnumWords_words s w hw
  exact ⟨hne, fun c hc => by rw [isSpace_eq_false_of_alnum (halnum c hc)]; rfl⟩

/-- Joined words have no spaces at their ends. -/
theorem trim_joinWords {ws : List (List Char)} (h : AlnumWords ws) :
    trim isSpace (joinWords ' ' ws) = joinWords ' ' ws := by
  have hcollapsed : collapsed (joinWords ' ' ws) = joinWords ' ' ws := by
    rw [collapsed_eq, words_joinWords (by decide) h]
  rw [← hcollapsed, collapsed, trim_trim]

/-! ### Accents and capitals -/

section Cleaned

variable {u : Unicode} {raw : List Char}

/-- Stripping loses no letter and no digit. -/
theorem cleaned_alnum_iff : (∀ c ∈ cleaned u raw, alnum c = false) ↔
    ∀ c ∈ upperCased u (stripAccents u raw), alnum c = false := by
  simp only [cleaned, upperCased, List.mem_flatMap]
  constructor
  · rintro h d ⟨c, hc, hd⟩
    rcases mem_trim_or (q := isSpace) hc with hkept | hspace
    · exact h d ⟨c, hkept, hd⟩
    · rw [u.upper_space c hspace, List.mem_singleton] at hd
      rw [hd]
      exact alnum_eq_false_of_isSpace hspace
  · rintro h d ⟨c, hc, hd⟩
    have hwithin : trim isSpace (stripAccents u raw) <:+: stripAccents u raw :=
      (List.rdropWhile_prefix _ _).isInfix.trans (List.dropWhile_suffix _).isInfix
    exact h d ⟨c, hwithin.subset hc, hd⟩

theorem cleaned_nil : cleaned u [] = [] := by
  rw [cleaned, stripAccents, u.nfkd_nil]
  rfl

theorem stripLeading_sublist (s : List Char) : (stripLeading u s).Sublist s :=
  (Regex.subOnce_nil_sublist _ _).trans
    ((Regex.subOnce_nil_sublist _ _).trans (Regex.subOnce_nil_sublist _ s))

end Cleaned

/-! ### The loops -/

section Loops

variable {u : Unicode}

theorem stripMarker_sublist {s new : List Char} (h : stripMarker u s = some new) :
    new.Sublist s ∧ new.length < s.length := by
  simp only [stripMarker, Option.ite_none_left_eq_some, Option.some.injEq] at h
  obtain ⟨hne, hnew⟩ := h
  have hsub : new.Sublist s := by
    rw [← hnew]
    exact (List.rdropWhile_prefix _ _).sublist.trans (Regex.sub_nil_sublist _ s)
  refine ⟨hsub, lt_of_le_of_ne hsub.length_le fun hlength => hne ?_⟩
  rw [hnew]
  exact hsub.eq_of_length hlength

theorem popDigits_cuts {tokens rest : List (List Char)} (h : popDigits tokens = some rest) :
    rest <+: tokens ∧ rest.length < tokens.length := by
  rw [popDigits] at h
  cases hlast : tokens.getLast? with
  | none => simp [hlast] at h
  | some w =>
    have hpos := List.length_pos_of_mem (List.mem_of_getLast? hlast)
    simp only [hlast, Option.ite_none_right_eq_some, Option.some.injEq] at h
    rw [← h.2, List.length_dropLast]
    exact ⟨List.dropLast_prefix tokens, by omega⟩

theorem popCompanyForm_cuts {tokens rest : List (List Char)}
    (h : popCompanyForm tokens = some rest) : rest <+: tokens ∧ rest.length < tokens.length := by
  rw [popCompanyForm, Option.map_eq_some_iff] at h
  obtain ⟨form, hform, rfl⟩ := h
  have hsuffix : form <:+ tokens := by simpa using List.find?_some hform
  have hne : 0 < form.length :=
    (by decide : ∀ form ∈ trailingCompanyForms, 0 < form.length) form
      (List.mem_of_find?_eq_some hform)
  have hle := hsuffix.length_le
  exact ⟨List.take_prefix _ tokens, by rw [List.length_take]; omega⟩

/-- When no round of the loop over company forms is left, the words end in none of them. -/
theorem popCompanyForm_eq_none_iff {tokens : List (List Char)} :
    popCompanyForm tokens = none ↔ ∀ form ∈ trailingCompanyForms, ¬form <:+ tokens := by
  simp [popCompanyForm]

theorem dropStopword_suffix (tokens : List (List Char)) : dropStopword tokens <:+ tokens := by
  cases tokens with
  | nil => exact List.suffix_refl []
  | cons w ws =>
    rw [dropStopword]
    split_ifs
    · exact List.suffix_cons w ws
    · exact List.suffix_refl _

end Loops

/-! ### The result -/

section Result

variable {u : Unicode} {raw : List Char}

/-- What holds of a result and the `return` it comes from. A result that is not empty and not the
fallback is made of neighbouring words of the text that the loop over the markers leaves. -/
structure MerchantName (u : Unicode) (raw : List Char) (ret : Return) (result : List Char) :
    Prop where
  tidy : ∃ ws, AlnumWords ws ∧ result = joinWords ' ' ws
  empty : result = [] ↔ ∀ c ∈ upperCased u (stripAccents u raw), alnum c = false
  run : ret ≠ .fallback → result ≠ [] →
    ∃ s, (∃ n, ∀ m, n ≤ m → stripMarkers u m (stripLeading u (cleaned u raw)) = some s) ∧
      wordsOf alnum result <:+: wordsOf alnum s
  length : ret ≠ .fallback → result ≠ [] → 3 ≤ result.length
  form : ret ≠ .fallback → result ≠ [] →
    ∀ form ∈ trailingCompanyForms, ¬form <:+ wordsOf alnum result

/-- The last steps have a result with enough fuel: the fallback, or neighbouring words of the text
they are given. -/
theorem nameOf_returns (u : Unicode) (raw s : List Char) :
    (∃ n, ∀ m, n ≤ m → nameOf u m raw s = some (.fallback, fallback u raw)) ∨
      ∃ ws, ws <:+: wordsOf alnum s ∧ 3 ≤ (joinWords ' ' ws).length ∧
        (∀ form ∈ trailingCompanyForms, ¬form <:+ ws) ∧
        ∃ n, ∀ m, n ≤ m → nameOf u m raw s = some (.candidate, joinWords ' ' ws) := by
  by_cases hs : collapsed s = []
  · exact Or.inl ⟨0, fun m _ => by simp [nameOf, hs]⟩
  -- both loops over the words are left, and only cut words off at the end
  obtain ⟨digitFree, -, hdigits, hdigitsLoop⟩ :=
    exists_loop popDigits List.length (fun _ _ h => (popDigits_cuts h).2)
      (dropStopword (wordsOf alnum s))
  obtain ⟨ws, hleft, hforms, hformsLoop⟩ :=
    exists_loop popCompanyForm List.length (fun _ _ h => (popCompanyForm_cuts h).2) digitFree
  have hrun : digitFree <:+: wordsOf alnum s :=
    hdigits.invariant (P := (· <:+: wordsOf alnum s))
      (fun _ _ h hstep => (popDigits_cuts hstep).1.isInfix.trans h)
      (dropStopword_suffix _).isInfix
  have hwithin : ws <:+: wordsOf alnum s :=
    hforms.invariant (P := (· <:+: wordsOf alnum s))
      (fun _ _ h hstep => (popCompanyForm_cuts hstep).1.isInfix.trans h) hrun
  have hws : AlnumWords ws := fun w hw => alnumWords_words s w (hwithin.subset hw)
  have hname : ∀ m, (dropStopword (wordsOf alnum s)).length + digitFree.length + 1 ≤ m →
      nameOf u m raw s = if (joinWords ' ' ws).length < 3 then some (.fallback, fallback u raw)
        else some (.candidate, joinWords ' ' ws) := by
    intro m hm
    simp only [nameOf, if_neg hs, words_collapsed, hdigitsLoop m (by omega), Option.bind_eq_bind,
      Option.bind_some, hformsLoop m (by omega), trim_joinWords hws, Option.pure_def]
  by_cases hlength : (joinWords ' ' ws).length < 3
  · exact Or.inl ⟨_, fun m hm => by rw [hname m hm, if_pos hlength]⟩
  · exact Or.inr ⟨ws, hwithin, not_lt.mp hlength, popCompanyForm_eq_none_iff.mp hleft, _,
      fun m hm => by rw [hname m hm, if_neg hlength]⟩

theorem merchantName_fallback : MerchantName u raw .fallback (fallback u raw) where
  tidy := ⟨_, alnumWords_words _, collapsed_eq _⟩
  empty := by rw [fallback, collapsed_eq_nil_iff, cleaned_alnum_iff]
  run h := absurd rfl h
  length h := absurd rfl h
  form h := absurd rfl h

/-- Blank input, for which the result is empty. -/
theorem merchantName_blank (h : cleaned u raw = []) : MerchantName u raw .blank [] where
  tidy := ⟨[], by simp [AlnumWords], rfl⟩
  empty := by simp [← cleaned_alnum_iff, h]
  run _ h := absurd rfl h
  length _ h := absurd rfl h
  form _ h := absurd rfl h

/-- With enough fuel `normalize_description` has a result, always the same: a tidy name, empty just
when the text has no letters and digits. A result that is neither empty nor the fallback has at
least three characters, ends in no company form and is made of neighbouring words of the text
without its markers. -/
theorem normalizeDescription_returns (u : Unicode) (raw : List Char) :
    ∃ ret result, (∃ n, ∀ m, n ≤ m → normalizeDescription u m raw = some (ret, result)) ∧
      MerchantName u raw ret result := by
  by_cases hblank : raw = [] ∨ cleaned u raw = []
  · refine ⟨.blank, [], ⟨0, fun m _ => by simp [normalizeDescription, hblank]⟩,
      merchantName_blank ?_⟩
    rcases hblank with rfl | hcleaned
    · exact cleaned_nil
    · exact hcleaned
  obtain ⟨s, -, hmarkers, hloop⟩ := exists_loop (stripMarker u) List.length
    (fun _ _ h => (stripMarker_sublist h).2) (stripLeading u (cleaned u raw))
  have hsub : s.Sublist (cleaned u raw) :=
    hmarkers.invariant (P := (·.Sublist (cleaned u raw)))
      (fun _ _ h hstep => (stripMarker_sublist hstep).1.trans h) (stripLeading_sublist _)
  have hname : ∀ m, (stripLeading u (cleaned u raw)).length + 1 ≤ m →
      normalizeDescription u m raw = nameOf u m raw s := by
    intro m hm
    rw [normalizeDescription, if_neg hblank, stripMarkers, hloop m hm]
    rfl
  rcases nameOf_returns u raw s with ⟨n, hn⟩ | ⟨ws, hwithin, hlength, hform, n, hn⟩
  · refine ⟨.fallback, fallback u raw, ⟨(stripLeading u (cleaned u raw)).length + 1 + n,
      fun m hm => ?_⟩, merchantName_fallback⟩
    rw [hname m (by omega), hn m (by omega)]
  · have hws : AlnumWords ws := fun w hw => alnumWords_words s w (hwithin.subset hw)
    have hwords : wordsOf alnum (joinWords ' ' ws) = ws := words_joinWords (by decide) hws
    refine ⟨.candidate, joinWords ' ' ws, ⟨(stripLeading u (cleaned u raw)).length + 1 + n,
      fun m hm => by rw [hname m (by omega), hn m (by omega)]⟩,
      ⟨ws, hws, rfl⟩, ?_, fun _ _ => ⟨s, ⟨_, fun m hm => hloop m hm⟩, hwords.symm ▸ hwithin⟩,
      fun _ _ => hlength, fun _ _ => hwords.symm ▸ hform⟩
    -- the name has a word, and so has the text it is taken from
    have hnonempty : joinWords ' ' ws ≠ [] := List.ne_nil_of_length_pos (by omega)
    refine ⟨fun h => absurd h hnonempty, fun h => absurd ?_ hnonempty⟩
    have hnone : wordsOf alnum s = [] :=
      words_eq_nil_iff.mpr fun c hc => cleaned_alnum_iff.mpr h c (hsub.subset hc)
    rw [hnone] at hwithin
    rw [List.infix_nil.mp hwithin]
    rfl

end Result

/-! ### A blank description -/

/-- ASCII text. -/
def asciiText : Unicode where
  nfkd := id
  combining _ := false
  upper c := if 97 ≤ c.toNat ∧ c.toNat ≤ 122 then [c.toUpper] else [c]
  decimal := Char.isDigit
  nfkd_nil := rfl
  upper_space c h := by
    simp only [isSpace, decide_eq_true_eq] at h
    rw [if_neg (by omega)]

/-- The result for an empty description does not come from the fallback, and it has less than three
characters. -/
theorem normalizeDescription_empty :
    ∃ result, normalizeDescription asciiText 1 [] = some (.blank, result) ∧ ¬3 ≤ result.length :=
  ⟨[], rfl, by decide⟩

example : normalizeDescription asciiText 30 "POS LIDL *1234 *ABCD".toList =
    some (.candidate, "LIDL".toList) := by
  decide +kernel

end Pfv
