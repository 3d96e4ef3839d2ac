import Mathlib.Data.List.DropRight
import Mathlib.Tactic

/-!
# Words of a text

The words of a text are its longest runs of characters of a class, in order. Changing what stands
between words does not change them, and a tidy text, one with nothing but single separators between
its words, is its words joined.

## Main definitions

* `wordsOf`: the words of a text; `joinWords`: words with a separator between them.
* `squeeze`: every run of separators as one.
* `Tidy`: a text with single separators between its words and none at its ends.

## Main results

* `words_squeeze`, `words_trim`: squeezing and trimming separators keep the words.
* `joinWords_words`: a tidy text is its words joined.
* `words_joinWords`: the words of joined words.
* `tidy_trim_squeeze`: what squeezing and trimming leave is tidy.
-/

namespace Pfv

variable {α : Type*} {p q : α → Bool} {r : α}

/-- The words of a text that begin in it; in a word, what is left of that word is passed over. -/
def wordsFrom (p : α → Bool) : Bool → List α → List (List α)
  | _, [] => []
  | inWord, c :: l =>
      if p c then
        if inWord then wordsFrom p true l else (c :: l.takeWhile p) :: wordsFrom p true l
      else wordsFrom p false l

/-- The words of a text: its longest runs of characters of a class. -/
def wordsOf (p : α → Bool) (l : List α) : List (List α) := wordsFrom p false l

/-- The words with a separator between them. -/
def joinWords (r : α) : List (List α) → List α
  | [] => []
  | w :: ws => w ++ ws.flatMap (r :: ·)

/-- Every run of separators as a single `r`; in a run, its `r` has been written already. -/
def squeeze (q : α → Bool) (r : α) : Bool → List α → List α
  | _, [] => []
  | inRun, c :: l =>
      if q c then
        if inRun then squeeze q r true l else r :: squeeze q r true l
      else c :: squeeze q r false l

/-- The text without separators at its ends. -/
def trim (q : α → Bool) (l : List α) : List α := (l.dropWhile q).rdropWhile q

/-! ### Words -/

theorem ne_nil_of_mem_words {inWord : Bool} {l w : List α} (h : w ∈ wordsFrom p inWord l) :
    w ≠ [] ∧ ∀ c ∈ w, p c = true := by
  induction l generalizing inWord with
  | nil => simp [wordsFrom] at h
  | cons c l ih =>
    rw [wordsFrom] at h
    split_ifs at h with hc hin
    · exact ih h
    · rcases List.mem_cons.mp h with rfl | h
      · exact ⟨List.cons_ne_nil _ _, List.forall_mem_cons.mpr ⟨hc, fun _ => List.mem_takeWhile_imp⟩⟩
      · exact ih h
    · exact ih h

theorem wordsFrom_of_sep {inWord : Bool} {l : List α} (h : ∀ c ∈ l, p c = false) :
    wordsFrom p inWord l = [] := by
  induction l generalizing inWord with
  | nil => rfl
  | cons c l ih =>
    obtain ⟨hc, hl⟩ := List.forall_mem_cons.mp h
    rw [wordsFrom, hc, if_neg (by simp), ih hl]

/-- A text without words has no character of the class. -/
theorem words_eq_nil_iff {l : List α} : wordsOf p l = [] ↔ ∀ c ∈ l, p c = false := by
  refine ⟨fun h => ?_, wordsFrom_of_sep⟩
  rw [wordsOf] at h
  induction l with
  | nil => simp
  | cons c l ih =>
    by_cases hc : p c = true
    · simp [wordsFrom, hc] at h
    · rw [wordsFrom, if_neg hc] at h
      exact List.forall_mem_cons.mpr ⟨Bool.eq_false_iff.mpr hc, ih h⟩

theorem takeWhile_append_of_sep {l t : List α} (ht : ∀ c ∈ t, p c = false) :
    (l ++ t).takeWhile p = l.takeWhile p := by
  induction l with
  | nil =>
    cases t with
    | nil => rfl
    | cons c t => simp [ht c List.mem_cons_self]
  | cons c l ih => simp only [List.cons_append, List.takeWhile_cons, ih]

/-- Separators after a text add no words. -/
theorem wordsFrom_append_of_sep {inWord : Bool} {l t : List α} (ht : ∀ c ∈ t, p c = false) :
    wordsFrom p inWord (l ++ t) = wordsFrom p inWord l := by
  induction l generalizing inWord with
  | nil => exact wordsFrom_of_sep ht
  | cons c l ih => simp only [List.cons_append, wordsFrom, ih, takeWhile_append_of_sep ht]

theorem words_dropWhile (hq : ∀ c, q c = true → p c = false) (l : List α) :
    wordsOf p (l.dropWhile q) = wordsOf p l := by
  induction l with
  | nil => rfl
  | cons c l ih =>
    by_cases hc : q c = true
    · rw [List.dropWhile_cons_of_pos hc, ih, wordsOf, wordsOf, wordsFrom, hq c hc, if_neg (by simp)]
    · rw [List.dropWhile_cons_of_neg hc]

/-- Trimming separators keeps the words. -/
theorem words_trim (hq : ∀ c, q c = true → p c = false) (l : List α) :
    wordsOf p (trim q l) = wordsOf p l := by
  have hsplit := List.rdropWhile_append_rtakeWhile (l := l.dropWhile q) (p := q)
  calc wordsOf p (trim q l)
      = wordsOf p (trim q l ++ (l.dropWhile q).rtakeWhile q) :=
        (wordsFrom_append_of_sep fun c hc => hq c (List.mem_rtakeWhile_imp hc)).symm
    _ = wordsOf p l := by rw [trim, hsplit, words_dropWhile hq]

/-- A character is kept by trimming, or it is a separator. -/
theorem mem_trim_or {l : List α} {c : α} (h : c ∈ l) : c ∈ trim q l ∨ q c = true := by
  rw [← List.takeWhile_append_dropWhile (p := q) (l := l),
    ← List.rdropWhile_append_rtakeWhile (l := l.dropWhile q) (p := q)] at h
  rcases List.mem_append.mp h with h | h
  · exact Or.inr (List.mem_takeWhile_imp h)
  · exact (List.mem_append.mp h).imp_right List.mem_rtakeWhile_imp

theorem trim_trim (l : List α) : trim q (trim q l) = trim q l := by
  have hinit : (l.dropWhile q).rdropWhile q <+: l.dropWhile q := List.rdropWhile_prefix q _
  have hdrop : (trim q l).dropWhile q = trim q l := by
    rw [List.dropWhile_eq_self_iff]
    intro hpos
    simp only [trim] at hpos ⊢
    rw [hinit.getElem hpos]
    exact List.dropWhile_get_zero_not q l (lt_of_lt_of_le hpos hinit.length_le)
  calc trim q (trim q l) = (trim q l).rdropWhile q := congrArg (List.rdropWhile q) hdrop
    _ = trim q l := List.rdropWhile_idempotent q _

/-! ### Squeezing -/

section Squeeze

variable (hq : ∀ c, q c = true → p c = false) (hr : p r = false)
include hq hr

theorem takeWhile_squeeze (l : List α) :
    (squeeze q r false l).takeWhile p = l.takeWhile p := by
  induction l with
  | nil => rfl
  | cons c l ih =>
    by_cases hc : q c = true
    · simp [squeeze, hc, hr, hq c hc]
    · rw [squeeze, if_neg hc, List.takeWhile_cons, List.takeWhile_cons, ih]

theorem wordsFrom_squeeze {inWord inRun : Bool} (h : inWord = true → inRun = false) (l : List α) :
    wordsFrom p inWord (squeeze q r inRun l) = wordsFrom p inWord l := by
  induction l generalizing inWord inRun with
  | nil => rfl
  | cons c l ih =>
    by_cases hc : q c = true
    · have hpc := hq c hc
      cases inRun with
      | true =>
        have hin : inWord = false := by
          cases inWord with
          | false => rfl
          | true => exact absurd (h rfl) (by decide)
        rw [squeeze, if_pos hc, if_pos rfl, hin, ih (by simp), wordsFrom, hpc, if_neg (by simp)]
      | false =>
        rw [squeeze, if_pos hc, if_neg (by simp), wordsFrom, hr, if_neg (by simp), ih (by simp),
          wordsFrom, hpc, if_neg (by simp)]
    · rw [squeeze, if_neg hc, wordsFrom, wordsFrom, ih (by simp), ih (by simp),
        takeWhile_squeeze hq hr]

/-- Squeezing runs of separators keeps the words. -/
theorem words_squeeze (l : List α) : wordsOf p (squeeze q r false l) = wordsOf p l :=
  wordsFrom_squeeze hq hr (by simp) l

end Squeeze

theorem mem_squeeze {inRun : Bool} {l : List α} {c : α} (h : c ∈ squeeze q r inRun l) :
    c = r ∨ c ∈ l ∧ q c = false := by
  induction l generalizing inRun with
  | nil => simp [squeeze] at h
  | cons d l ih =>
    have hrest : ∀ {b}, c ∈ squeeze q r b l → c = r ∨ c ∈ d :: l ∧ q c = false :=
      fun h => (ih h).imp_right fun h => ⟨List.mem_cons_of_mem _ h.1, h.2⟩
    rw [squeeze] at h
    split_ifs at h with hd hin
    · exact hrest h
    · rcases List.mem_cons.mp h with rfl | h
      · exact Or.inl rfl
      · exact hrest h
    · rcases List.mem_cons.mp h with rfl | h
      · exact Or.inr ⟨List.mem_cons_self, Bool.eq_false_iff.mpr hd⟩
      · exact hrest h

/-- No two separators stand next to each other in a squeezed text, and after a run it does not begin
with one. -/
theorem squeeze_isChain (inRun : Bool) (l : List α) :
    (squeeze q r inRun l).IsChain (fun c d => ¬(q c = true ∧ q d = true)) ∧
      (inRun = true → ∀ c ∈ (squeeze q r inRun l).head?, q c = false) := by
  induction l generalizing inRun with
  | nil => simp [squeeze]
  | cons c l ih =>
    by_cases hc : q c = true
    · cases inRun with
      | true => simpa [squeeze, hc] using ih true
      | false =>
        rw [squeeze, if_pos hc, if_neg (by simp)]
        refine ⟨List.isChain_cons.mpr ⟨fun d hd hboth => ?_, (ih true).1⟩, by simp⟩
        rw [(ih true).2 rfl d hd] at hboth
        exact absurd hboth.2 (by simp)
    · rw [squeeze, if_neg hc]
      refine ⟨List.isChain_cons.mpr ⟨fun d _ hboth => hc hboth.1, (ih false).1⟩, fun _ d hd => ?_⟩
      rw [← Option.mem_some_iff.mp hd]
      exact Bool.eq_false_iff.mpr hc

/-! ### Tidy texts -/

/-- A text with single separators between its words and none at its ends. -/
structure Tidy (p : α → Bool) (r : α) (l : List α) : Prop where
  mem : ∀ c ∈ l, p c = true ∨ c = r
  chain : l.IsChain fun c d => ¬(c = r ∧ d = r)
  head : ∀ c ∈ l.head?, c ≠ r
  last : ∀ c ∈ l.getLast?, c ≠ r

/-- What is left of a tidy text in and after a word. -/
theorem Tidy.split (hr : p r = false) {l : List α} (hmem : ∀ c ∈ l, p c = true ∨ c = r)
    (hchain : l.IsChain fun c d => ¬(c = r ∧ d = r)) (hlast : ∀ c ∈ l.getLast?, c ≠ r) :
    l.takeWhile p ++ (wordsFrom p true l).flatMap (r :: ·) = l ∧
      ((∀ c ∈ l.head?, c ≠ r) → joinWords r (wordsOf p l) = l) := by
  induction l with
  | nil => simp [wordsFrom, wordsOf, joinWords]
  | cons c l ih =>
    obtain ⟨hc, hmem⟩ := List.forall_mem_cons.mp hmem
    obtain ⟨hnext, hchain⟩ := List.isChain_cons.mp hchain
    have hlast' : ∀ d ∈ l.getLast?, d ≠ r := fun d hd =>
      hlast d (List.mem_getLast?_cons hd)
    obtain ⟨hin, hfresh⟩ := ih hmem hchain hlast'
    rcases hc with hc | rfl
    · refine ⟨?_, fun _ => ?_⟩
      · rw [List.takeWhile_cons_of_pos hc, wordsFrom, if_pos hc, if_pos rfl, List.cons_append, hin]
      · rw [wordsOf, wordsFrom, if_pos hc, if_neg (by simp), joinWords, List.cons_append, hin]
    · refine ⟨?_, fun h => absurd rfl (h c rfl)⟩
      -- the separator is followed by a word
      have hhead : ∀ d ∈ l.head?, d ≠ c := fun d hd hdc => hnext d hd ⟨rfl, hdc⟩
      have hjoin := hfresh hhead
      rw [List.takeWhile_cons_of_neg (by simp [hr]), wordsFrom, if_neg (by simp [hr]),
        List.nil_append]
      cases hw : wordsFrom p false l with
      | nil =>
        rw [wordsOf, hw] at hjoin
        rw [← hjoin] at hlast
        exact absurd rfl (hlast c rfl)
      | cons w ws =>
        rw [wordsOf, hw, joinWords] at hjoin
        rw [List.flatMap_cons, List.cons_append, hjoin]

/-- A tidy text is its words joined. -/
theorem joinWords_words (hr : p r = false) {l : List α} (h : Tidy p r l) :
    joinWords r (wordsOf p l) = l :=
  (Tidy.split hr h.mem h.chain h.last).2 h.head

/-- The words of joined words. -/
theorem words_joinWords (hr : p r = false) {ws : List (List α)}
    (hws : ∀ w ∈ ws, w ≠ [] ∧ ∀ c ∈ w, p c = true) : wordsOf p (joinWords r ws) = ws := by
  -- a word, then the words that follow it
  have hword : ∀ {w t : List α}, (∀ c ∈ w, p c = true) → (t = [] ∨ ∃ t', t = r :: t') →
      wordsFrom p true (w ++ t) = wordsFrom p true t ∧ (w ++ t).takeWhile p = w := by
    intro w t hw ht
    induction w with
    | nil => rcases ht with rfl | ⟨t', rfl⟩ <;> simp [hr]
    | cons c w ih =>
      obtain ⟨hc, hw⟩ := List.forall_mem_cons.mp hw
      simp [wordsFrom, hc, ih hw]
  have hrest : ∀ ws : List (List α), (∀ w ∈ ws, w ≠ [] ∧ ∀ c ∈ w, p c = true) →
      wordsFrom p true (ws.flatMap (r :: ·)) = ws := by
    intro ws hws
    induction ws with
    | nil => rfl
    | cons w ws ih =>
      obtain ⟨⟨hne, hw⟩, hrest⟩ := List.forall_mem_cons.mp hws
      clear hws
      have htail : ws.flatMap (r :: ·) = [] ∨ ∃ t', ws.flatMap (r :: ·) = r :: t' := by
        cases ws with
        | nil => exact Or.inl rfl
        | cons w' ws => exact Or.inr ⟨_, rfl⟩
      obtain ⟨c, w, rfl⟩ := List.exists_cons_of_ne_nil hne
      obtain ⟨hc, hw⟩ := List.forall_mem_cons.mp hw
      obtain ⟨hskip, htake⟩ := hword hw htail
      rw [List.flatMap_cons, List.cons_append, wordsFrom, hr, if_neg (by simp), List.cons_append,
        wordsFrom, if_pos hc, if_neg (by simp), hskip, htake, ih hrest]
  cases ws with
  | nil => rfl
  | cons w ws =>
    have hall := hrest (w :: ws) hws
    rwa [List.flatMap_cons, List.cons_append, wordsFrom, hr, if_neg (by simp)] at hall

/-- What squeezing and trimming leave is tidy. -/
theorem tidy_trim_squeeze (hr : q r = true) {l : List α} (hmem : ∀ c ∈ l, p c = true ∨ q c = true) :
    Tidy p r (trim q (squeeze q r false l)) := by
  set s := squeeze q r false l with hs
  have hwithin : trim q s <:+: s :=
    (List.rdropWhile_prefix q _).isInfix.trans (List.dropWhile_suffix q).isInfix
  have hsq : ∀ c ∈ s, p c = true ∨ c = r := by
    intro c hc
    rcases mem_squeeze hc with rfl | ⟨hl, hnot⟩
    · exact Or.inr rfl
    · refine Or.inl ((hmem c hl).resolve_right ?_)
      simp [hnot]
  refine ⟨fun c hc => hsq c (hwithin.subset hc), ?_, fun c hc hcr => ?_, fun c hc hcr => ?_⟩
  · obtain ⟨before, after, happend⟩ := hwithin
    have hchain := (squeeze_isChain (q := q) (r := r) false l).1
    rw [← hs, ← happend] at hchain
    refine hchain.left_of_append.right_of_append.imp fun c d h hboth => h ?_
    rw [hboth.1, hboth.2]
    exact ⟨hr, hr⟩
  · subst hcr
    have hdrop : (s.dropWhile q).head? = some c := by
      obtain ⟨t, ht⟩ := List.rdropWhile_prefix q (s.dropWhile q)
      rw [← ht]
      have hne : (s.dropWhile q).rdropWhile q ≠ [] := List.ne_nil_of_mem (List.mem_of_mem_head? hc)
      rw [List.head?_append_of_ne_nil _ hne]
      exact hc
    have hnot := List.head?_dropWhile_not q s
    rw [hdrop] at hnot
    simp [hr] at hnot
  · subst hcr
    rw [trim] at hc
    have hne : (s.dropWhile q).rdropWhile q ≠ [] := List.ne_nil_of_mem (List.mem_of_getLast? hc)
    have hnot := List.rdropWhile_last_not q (s.dropWhile q) hne
    rw [List.getLast?_eq_some_getLast hne] at hc
    rw [Option.some.inj hc] at hnot
    exact hnot hr

end Pfv
