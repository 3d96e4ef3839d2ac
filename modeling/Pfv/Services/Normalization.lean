import Pfv.Base.Loop
import Pfv.Base.Regex
import Pfv.Models.Schemas

/-!
# Names of merchants

`normalize_description` of `backend/app/services/category_rules_service.py`: from the description of
a bank row to the name of a merchant, under which rules are learned. Strings are lists of characters
here. What Python takes from the Unicode tables is a parameter.

## Main definitions

* `Unicode`: the functions of the Unicode tables.
* `trailingTokens` and the other patterns of the module.
* `stripMarkers`, `companyFree`: the loops.
* `normalizeDescription`: the result, with the `return` it comes from.
-/

namespace Pfv

/-- What the standard library takes from the Unicode tables: the decomposition NFKD of a string, the
combining characters, the upper case of a character and the decimal digits. -/
structure Unicode where
  nfkd : List Char → List Char
  combining : Char → Bool
  upper : Char → List Char
  decimal : Char → Bool
  nfkd_nil : nfkd [] = []
  upper_space : ∀ c, isSpace c = true → upper c = [c]

/-! ### Patterns -/

/-- `[A-Z]`. -/
def upperLetter (c : Char) : Bool := 'A' ≤ c ∧ c ≤ 'Z'

/-- `[A-Z0-9]`. -/
def alnum (c : Char) : Bool := upperLetter c ∨ ('0' ≤ c ∧ c ≤ '9')

/-- A capital letter or another character of a pattern under `re.IGNORECASE`. The long s is another
lower case of `S`. -/
def ignoreCase (c d : Char) : Bool := d = c ∨ d = c.toLower ∨ (c = 'S' ∧ d = 'ſ')

/-- A text of a pattern under `re.IGNORECASE`. -/
def literal (text : String) : Regex :=
  .seqs (text.toList.map fun c => .one (ignoreCase c))

/-- `\s*`. -/
def spaces : Regex := .many isSpace 0 none

/-- `\s+`. -/
def someSpaces : Regex := .many isSpace 1 none

/-- `_URL_SCHEME`. -/
def urlScheme : Regex :=
  .seqs [.start, spaces, literal "HTTP", .opt (literal "S"), literal "://"]

/-- `_LEADING_MASKED_CARD`. -/
def leadingMaskedCard (u : Unicode) : Regex :=
  .seqs [.start, spaces, .many (· = '*') 1 none, spaces, .many u.decimal 2 none, someSpaces]

/-- `_LEADING_NOISE`. -/
def leadingNoise : Regex :=
  .seqs [.start, spaces,
    .alts [literal "POS", .seqs [literal "CARD", spaces, literal "PAYMENT"], literal "CARD",
      literal "PAY", .seq (literal "SEPA") (.opt (.seq someSpaces (literal "TRANSFER"))),
      literal "DEB", literal "CARTAO"],
    someSpaces]

/-- `_TRAILING_TOKENS`. -/
def trailingTokens (u : Unicode) : Regex :=
  let digits (n : ℕ) : Regex := .many u.decimal n (some n)
  .seqs [
    .alts [
      .seqs [spaces, .many upperLetter 2 (some 2), digits 2, .many alnum 10 (some 30)],
      .seqs [spaces, .one (· = '*'), .many alnum 1 none],
      .seqs [someSpaces, digits 4, .one (· = '-'), digits 2, .one (· = '-'), digits 2],
      .seqs [someSpaces, digits 8],
      .seq (.one (· = '=')) (.many alnum 1 none)],
    spaces, .stop]

/-- `_NON_ALNUM`. -/
def nonAlnum : Regex := .many (fun c => !alnum c) 1 none

/-- `_MULTI_SPACE`. -/
def multiSpace : Regex := someSpaces

/-- `_LEADING_STOPWORDS`. -/
def leadingStopwords : List (List Char) :=
  ["TRANSFER", "PAYMENT", "DEBIT", "CREDIT", "TXN", "TX"].map String.toList

/-- `_TRAILING_COMPANY_FORMS`. -/
def trailingCompanyForms : List (List (List Char)) :=
  [["B", "V"], ["N", "V"], ["S", "A"], ["BV"], ["NV"], ["SA"], ["BVBA"], ["GMBH"], ["AG"], ["INC"],
    ["LLC"], ["LTD"]].map (·.map String.toList)

/-! ### Steps -/

/-- `_strip_accents`. -/
def stripAccents (u : Unicode) (s : List Char) : List Char :=
  (u.nfkd s).filter fun c => !u.combining c

/-- `str.upper`. -/
def upperCased (u : Unicode) (s : List Char) : List Char := s.flatMap u.upper

/-- `_strip_accents(raw).strip().upper()`. -/
def cleaned (u : Unicode) (raw : List Char) : List Char :=
  upperCased u (trim isSpace (stripAccents u raw))

/-- Characters other than `A-Z` and `0-9` become single spaces, none of them at the ends. -/
def collapsed (s : List Char) : List Char :=
  trim isSpace (multiSpace.sub [' '] (nonAlnum.sub [' '] s))

/-- `_fallback`. -/
def fallback (u : Unicode) (raw : List Char) : List Char := collapsed (cleaned u raw)

/-- The text without what banks put in front of a description. -/
def stripLeading (u : Unicode) (s : List Char) : List Char :=
  leadingNoise.subOnce [] ((leadingMaskedCard u).subOnce [] (urlScheme.subOnce [] s))

/-- One round of the loop over the trailing markers, until nothing changes. -/
def stripMarker (u : Unicode) (s : List Char) : Option (List Char) :=
  let new := ((trailingTokens u).sub [] s).rdropWhile isSpace
  if new = s then none else some new

/-- The loop over the trailing markers. -/
def stripMarkers (u : Unicode) (fuel : ℕ) (s : List Char) : Option (List Char) :=
  loop (stripMarker u) fuel s

/-- The words without a stopword in front of them. -/
def dropStopword : List (List Char) → List (List Char)
  | [] => []
  | w :: ws => if w ∈ leadingStopwords then ws else w :: ws

/-- One round of the loop over trailing numbers. Words are `A-Z` and `0-9` by now. -/
def popDigits (tokens : List (List Char)) : Option (List (List Char)) :=
  match tokens.getLast? with
  | some w => if w.all Char.isDigit ∧ 4 ≤ w.length then some tokens.dropLast else none
  | none => none

/-- One round of the loop over trailing company forms. -/
def popCompanyForm (tokens : List (List Char)) : Option (List (List Char)) :=
  (trailingCompanyForms.find? (· <:+ tokens)).map fun form =>
    tokens.take (tokens.length - form.length)

/-- The `return` a result comes from: the two for blank input, the two of the fallback, and the last
one. -/
inductive Return
  | blank
  | fallback
  | candidate
  deriving DecidableEq

/-- The last steps, from what the loop over the markers leaves. -/
def nameOf (u : Unicode) (fuel : ℕ) (raw s : List Char) : Option (Return × List Char) := do
  let s := collapsed s
  if s = [] then return (.fallback, fallback u raw)
  let tokens := wordsOf (fun c => !isSpace c) s
  let tokens ← loop popDigits fuel (dropStopword tokens)
  let tokens ← loop popCompanyForm fuel tokens
  let candidate := trim isSpace (joinWords ' ' tokens)
  if candidate.length < 3 then return (.fallback, fallback u raw)
  return (.candidate, candidate)

/-- `normalize_description`, when its loops may take `fuel` rounds. -/
def normalizeDescription (u : Unicode) (fuel : ℕ) (raw : List Char) :
    Option (Return × List Char) := do
  if raw = [] ∨ cleaned u raw = [] then return (.blank, [])
  let s ← stripMarkers u fuel (stripLeading u (cleaned u raw))
  nameOf u fuel raw s

end Pfv
