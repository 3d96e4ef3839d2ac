import Pfv.Base.Words

/-!
# Regular expressions

The matching of a regular expression by backtracking, as a list: the lengths of the matches at a
position of a text, the one the engine finds first at the head. A repetition repeats a class of
characters and is greedy, an alternative tries its first branch first. A position is what stands
before it, in reverse order, and what stands after it.

## Main definitions

* `Regex`, `Regex.lengths`: expressions, and the lengths of their matches at a position.
* `Regex.sub`, `Regex.subOnce`: replacing the matches, or the first one. An expression that matches
  nothing where it stands is passed over.

## Main results

* `Regex.sub_nil_sublist`, `Regex.subOnce_nil_sublist`: deleting matches leaves a sublist.
* `Regex.sub_many`: replacing the runs of a class squeezes them.
-/

namespace Pfv

inductive Regex
  | empty
  | many (p : Char → Bool) (least : ℕ) (most : Option ℕ)
  | seq (a b : Regex)
  | alt (a b : Regex)
  | start
  | stop

namespace Regex

/-- One character of a class. -/
def one (p : Char → Bool) : Regex := many p 1 (some 1)

/-- An expression or nothing, the expression first. -/
def opt (a : Regex) : Regex := alt a empty

/-- Expressions one after the other. -/
def seqs : List Regex → Regex
  | [] => empty
  | [a] => a
  | a :: l => seq a (seqs l)

/-- The first of some expressions that matches. -/
def alts : List Regex → Regex
  | [] => empty
  | [a] => a
  | a :: l => alt a (alts l)

/-- The lengths of the matches at a position, in the order in which they are tried. The end of a
text is also before a line feed that ends it. -/
def lengths : Regex → List Char → List Char → List ℕ
  | empty, _, _ => [0]
  | many p least most, _, after =>
      let run := (after.takeWhile p).length
      ((List.range ((most.elim run (min run)) + 1)).reverse).filter (least ≤ ·)
  | seq a b, before, after =>
      (a.lengths before after).flatMap fun n =>
        (b.lengths ((after.take n).reverse ++ before) (after.drop n)).map (n + ·)
  | alt a b, before, after => a.lengths before after ++ b.lengths before after
  | start, before, _ => if before = [] then [0] else []
  | stop, _, after => if after = [] ∨ after = ['\n'] then [0] else []

/-- The length of the match at a position. -/
def match? (r : Regex) (before after : List Char) : Option ℕ := (r.lengths before after).head?

/-- `re.sub` from a position on, `skip` characters of a match being passed over first. -/
def subFrom (r : Regex) (repl : List Char) : ℕ → List Char → List Char → List Char
  | _, _, [] => []
  | skip + 1, before, c :: after => r.subFrom repl skip (c :: before) after
  | 0, before, c :: after =>
      match r.match? before (c :: after) with
      | some (n + 1) => repl ++ r.subFrom repl n (c :: before) after
      | _ => c :: r.subFrom repl 0 (c :: before) after

/-- `re.sub`. -/
def sub (r : Regex) (repl s : List Char) : List Char := r.subFrom repl 0 [] s

/-- `re.sub` with `count=1` from a position on. -/
def subOnceFrom (r : Regex) (repl : List Char) : List Char → List Char → List Char
  | _, [] => []
  | before, c :: after =>
      match r.match? before (c :: after) with
      | some (n + 1) => repl ++ after.drop n
      | _ => c :: r.subOnceFrom repl (c :: before) after

/-- `re.sub` with `count=1`. -/
def subOnce (r : Regex) (repl s : List Char) : List Char := r.subOnceFrom repl [] s

theorem subFrom_nil_sublist (r : Regex) (skip : ℕ) (before s : List Char) :
    (r.subFrom [] skip before s).Sublist s := by
  induction s generalizing skip before with
  | nil => simp [subFrom]
  | cons c s ih =>
    cases skip with
    | succ skip => exact (ih skip _).cons c
    | zero =>
      rw [subFrom]
      split
      · exact (ih _ _).cons c
      · exact (ih _ _).cons_cons c

/-- Deleting every match leaves a sublist. -/
theorem sub_nil_sublist (r : Regex) (s : List Char) : (r.sub [] s).Sublist s :=
  r.subFrom_nil_sublist 0 [] s

theorem subOnceFrom_nil_sublist (r : Regex) (before s : List Char) :
    (r.subOnceFrom [] before s).Sublist s := by
  induction s generalizing before with
  | nil => simp [subOnceFrom]
  | cons c s ih =>
    rw [subOnceFrom]
    split
    · exact (List.drop_sublist _ s).cons c
    · exact (ih _).cons_cons c

/-- Deleting the first match leaves a sublist. -/
theorem subOnce_nil_sublist (r : Regex) (s : List Char) : (r.subOnce [] s).Sublist s :=
  r.subOnceFrom_nil_sublist [] s

/-- The first match of a greedy run is all of it. -/
theorem match?_many (p : Char → Bool) (before : List Char) (c : Char) (s : List Char) :
    (many p 1 none).match? before (c :: s) =
      if p c then some ((s.takeWhile p).length + 1) else none := by
  rw [match?, lengths]
  by_cases hc : p c = true
  · simp [hc, List.range_succ]
  · simp [hc, List.range_succ]

theorem subFrom_many (p : Char → Bool) (r : Char) (before s : List Char) :
    (many p 1 none).subFrom [r] 0 before s = squeeze p r false s ∧
      (many p 1 none).subFrom [r] (s.takeWhile p).length before s = squeeze p r true s := by
  induction s generalizing before with
  | nil => exact ⟨rfl, rfl⟩
  | cons c s ih =>
    obtain ⟨hfresh, hrun⟩ := ih (c :: before)
    by_cases hc : p c = true
    · constructor
      · rw [subFrom, match?_many, if_pos hc, squeeze, if_pos hc, if_neg (by simp), ← hrun]
        rfl
      · rw [List.takeWhile_cons_of_pos hc, List.length_cons, subFrom, squeeze, if_pos hc,
          if_pos rfl, hrun]
    · have hstep : (many p 1 none).subFrom [r] 0 before (c :: s) = c :: squeeze p r false s := by
        rw [subFrom, match?_many, if_neg hc, hfresh]
      constructor
      · rw [squeeze, if_neg hc, hstep]
      · rw [List.takeWhile_cons_of_neg hc, List.length_nil, squeeze, if_neg hc, hstep]

/-- Replacing every run of a class by one character squeezes the runs. -/
theorem sub_many (p : Char → Bool) (r : Char) (s : List Char) :
    (many p 1 none).sub [r] s = squeeze p r false s :=
  (subFrom_many p r [] s).1

end Regex

end Pfv
