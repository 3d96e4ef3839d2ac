import Mathlib.Data.List.DropRight
import Pfv.Base.Csv
import Pfv.Models.Schemas

/-!
# The bank file

The parser of an exported bank file (`backend/app/services/import_parser.py`). Strings are read as
Python reads them: digits of every script count as digits, and `Decimal` accepts exponents,
underscores, infinities and NaNs. A record with more values than the header has names, and a file
the `csv` module cannot read, are not parse errors of the module: their exceptions go through.

`raw_data` is read by nobody and left out.

## Main definitions

* `decimalDigit`, `isDigit`: `int` of a digit, `str.isdigit`.
* `Decimal`, `Decimal.ofString`: the numbers of the `decimal` module and its constructor.
* `ParsedRow`, `ImportParserError`.
* `parseAmount`, `parseDateYyyymmdd`, `parseRow`, `parseCsv`.

## Main results

* `parseCsv_ok`: a parsed file has rows, numbered in file order, with stripped descriptions.
-/

namespace Pfv

/-! ### Strings -/

/-- `str.strip('"')`. -/
def stripQuotes (s : String) : String :=
  String.ofList ((s.toList.dropWhile (· = '"')).reverse.dropWhile (· = '"')).reverse

/-- Stripping a string twice strips it once. -/
theorem strip_strip (s : String) : strip (strip s) = strip s := by
  set front := s.toList.dropWhile isSpace with hfront
  have hstrip : (strip s).toList = front.rdropWhile isSpace := String.toList_ofList
  have hinit : front.rdropWhile isSpace <+: front := List.rdropWhile_prefix isSpace front
  -- What is left is a prefix of a list that begins with no white space.
  have hdrop : (front.rdropWhile isSpace).dropWhile isSpace = front.rdropWhile isSpace := by
    rw [List.dropWhile_eq_self_iff]
    intro hpos
    rw [hinit.getElem hpos]
    exact List.dropWhile_get_zero_not isSpace s.toList (lt_of_lt_of_le hpos hinit.length_le)
  show String.ofList (((strip s).toList.dropWhile isSpace).rdropWhile isSpace) =
    String.ofList (front.rdropWhile isSpace)
  rw [hstrip, hdrop, List.rdropWhile_idempotent]

/-- The zeros of the decimal systems of Unicode, whose other digits follow them. -/
def decimalZeros : List ℕ :=
  [0x30, 0x660, 0x6f0, 0x7c0, 0x966, 0x9e6, 0xa66, 0xae6, 0xb66, 0xbe6, 0xc66, 0xce6, 0xd66, 0xde6,
    0xe50, 0xed0, 0xf20, 0x1040, 0x1090, 0x17e0, 0x1810, 0x1946, 0x19d0, 0x1a80, 0x1a90, 0x1b50,
    0x1bb0, 0x1c40, 0x1c50, 0xa620, 0xa8d0, 0xa900, 0xa9d0, 0xa9f0, 0xaa50, 0xabf0, 0xff10, 0x104a0,
    0x10d30, 0x11066, 0x110f0, 0x11136, 0x111d0, 0x112f0, 0x11450, 0x114d0, 0x11650, 0x116c0,
    0x11730, 0x118e0, 0x11950, 0x11c50, 0x11d50, 0x11da0, 0x11f50, 0x16a60, 0x16ac0, 0x16b50,
    0x1d7ce, 0x1d7d8, 0x1d7e2, 0x1d7ec, 0x1d7f6, 0x1e140, 0x1e2f0, 0x1e4f0, 0x1e950, 0x1fbf0]

/-- Superscripts, circled digits and other digits of no decimal system, first and last. -/
def otherDigits : List (ℕ × ℕ) :=
  [(0xb2, 0xb3), (0xb9, 0xb9), (0x1369, 0x1371), (0x19da, 0x19da), (0x2070, 0x2070),
    (0x2074, 0x2079), (0x2080, 0x2089), (0x2460, 0x2468), (0x2474, 0x247c), (0x2488, 0x2490),
    (0x24ea, 0x24ea), (0x24f5, 0x24fd), (0x24ff, 0x24ff), (0x2776, 0x277e), (0x2780, 0x2788),
    (0x278a, 0x2792), (0x10a40, 0x10a43), (0x10e60, 0x10e68), (0x11052, 0x1105a),
    (0x1f100, 0x1f10a)]

/-- The value of a decimal digit. -/
def decimalDigit (c : Char) : Option ℕ :=
  (decimalZeros.find? fun z => z ≤ c.toNat ∧ c.toNat < z + 10).map (c.toNat - ·)

/-- A character `str.isdigit` takes for a digit. -/
def isDigit (c : Char) : Bool :=
  (decimalDigit c).isSome || otherDigits.any fun r => r.1 ≤ c.toNat ∧ c.toNat ≤ r.2

/-- The number with the given digits. -/
def ofDigits (ds : List ℕ) : ℕ :=
  ds.foldl (fun n d => 10 * n + d) 0

/-- `int` of a string of digits. -/
def intOfDigits (cs : List Char) : Option ℕ :=
  (cs.mapM decimalDigit).map ofDigits

/-! ### Decimal numbers -/

/-- A number of the `decimal` module. -/
inductive Decimal
  | finite (value : ℚ)
  | infinity (negative : Bool)
  | nan (signaling : Bool)
  deriving DecidableEq

namespace Decimal

/-- A character of a numeral, with the digits of other scripts as ASCII digits. -/
def ascii (c : Char) : Option Char :=
  if c.toNat < 128 then some c
  else if isSpace c then some ' '
  else (decimalDigit c).map fun d => Char.ofNat ('0'.toNat + d)

/-- The sign of a numeral. -/
def sign : List Char → Bool × List Char
  | '-' :: cs => (true, cs)
  | '+' :: cs => (false, cs)
  | cs => (false, cs)

/-- The exponent at the end of a numeral. -/
def exponent : List Char → Option ℤ
  | [] => some 0
  | 'e' :: cs =>
      let (negative, ds) := sign cs
      if ds = [] ∨ ds.any (!·.isDigit) then none
      else (intOfDigits ds).map fun (n : ℕ) => if negative then -(n : ℤ) else n
  | _ => none

/-- The digits after the decimal point, and what follows them. -/
def fraction : List Char → List Char × List Char
  | '.' :: cs => cs.span Char.isDigit
  | cs => ([], cs)

/-- A numeral without its sign. Numbers too large or too fine for the module are refused. -/
def finiteOf (negative : Bool) (cs : List Char) : Option Decimal := do
  let (whole, cs) := cs.span Char.isDigit
  let (frac, cs) := fraction cs
  if whole ++ frac = [] then none
  else do
    let coefficient ← intOfDigits (whole ++ frac)
    let exp := (← exponent cs) - frac.length
    if exp < -1999999999999999997 ∨ 999999999999999999 < exp + Nat.log 10 coefficient then none
    else
      some (.finite ((if negative then -(coefficient : ℚ) else coefficient) * 10 ^ exp))

/-- `Decimal(value)`. -/
def ofString (value : String) : Option Decimal := do
  let cs ← ((strip value).toList.filter (· ≠ '_')).mapM ascii
  let (negative, cs) := sign cs
  match cs.map Char.toLower with
  | ['i', 'n', 'f'] | ['i', 'n', 'f', 'i', 'n', 'i', 't', 'y'] => some (.infinity negative)
  | 'n' :: 'a' :: 'n' :: ds => if ds.all Char.isDigit then some (.nan false) else none
  | 's' :: 'n' :: 'a' :: 'n' :: ds => if ds.all Char.isDigit then some (.nan true) else none
  | cs => finiteOf negative cs

end Decimal

/-! ### Rows -/

/-- A single parsed transaction row from a bank export file. The last three fields are those of OFX
files. -/
structure ParsedRow where
  rowNumber : ℕ
  date : Date
  description : String
  amount : Decimal
  type : EntryType
  counterparty : Option String := none
  transactionType : Option String := none
  fitid : Option String := none
  bankId : Option String := none
  accountTypeOfx : Option String := none
  deriving DecidableEq

/-- `ParseError`, and the exceptions that go through the parser: those of the `csv` module and the
`AttributeError` of a value under no name. -/
inductive ImportParserError
  | parse (message : String) (rowNumber : Option ℕ := none)
  | csv (error : Csv.Error)
  | attribute
  deriving DecidableEq

/-! ### Parsing -/

/-- A semicolon in the header line makes it the delimiter. -/
def detectDelimiter (content : List Char) : Char :=
  if ';' ∈ content.takeWhile (· ≠ '\n') then ';' else ','

/-- A European amount: the period separates thousands, the comma decimals. -/
def parseAmount (value : String) : Except String Decimal :=
  let cleaned := (stripQuotes (strip value)).toList
  let cleaned := (cleaned.filter (· ≠ '.')).map fun c => if c = ',' then '.' else c
  orRaise (Decimal.ofString (String.ofList cleaned)) ("Cannot parse amount: '" ++ value ++ "'")

/-- A date such as `20260406`. -/
def parseDateYyyymmdd (value : String) : Except String Date := do
  let cleaned := (stripQuotes (strip value)).toList
  raiseIf (cleaned.length ≠ 8 ∨ cleaned.any (!isDigit ·) = true)
    ("Cannot parse date: '" ++ value ++ "'")
  let field := fun from' to' => orRaise (intOfDigits ((cleaned.take to').drop from'))
    ("Invalid date: '" ++ value ++ "'")
  let year ← field 0 4
  let month ← field 4 6
  let day ← field 6 8
  orRaise (Date.of? year month day) ("Invalid date: '" ++ value ++ "'")

def stripBom (content : String) : List Char :=
  content.toList.dropWhile (· = '\ufeff')

def requiredColumns : List String :=
  ["Amount (EUR)", "Date", "Debit/credit", "Name / Description"]

/-- A value of the row with its keys and values stripped; the last of equal keys wins. -/
def columnOf (row : Csv.DictRow) (name default : String) : String :=
  let items := row.cells.map fun p =>
    (stripQuotes (strip p.1), (p.2.map fun v => stripQuotes (strip v)).getD "")
  ((items.filter (·.1 = name)).getLast?.map (·.2)).getD default

/-- `value or None`. -/
def nonempty (value : String) : Option String :=
  if value = "" then none else some value

/-- One turn of the loop over the rows. -/
def parseRow (i : ℕ) (row : Csv.DictRow) : Except ImportParserError ParsedRow := do
  raiseIf (row.rest ≠ []) .attribute
  let direction := columnOf row "Debit/credit" ""
  let parsedDate ← (parseDateYyyymmdd (columnOf row "Date" "")).mapError (.parse · (some i))
  let parsedAmount ← (parseAmount (columnOf row "Amount (EUR)" "0")).mapError (.parse · (some i))
  let description := strip (columnOf row "Name / Description" "")
  raiseIf (description = "") (.parse "Empty description" (some i))
  pure
    { rowNumber := i, date := parsedDate, description := description, amount := parsedAmount
      type := if direction = "Debit" then .expense else .income
      counterparty := nonempty (strip (columnOf row "Counterparty" ""))
      transactionType := nonempty (strip (columnOf row "Transaction type" "")) }

/-- The loop over the rows, which are numbered in file order. -/
def parseRows : ℕ → List Csv.DictRow → Except ImportParserError (List ParsedRow)
  | _, [] => pure []
  | i, row :: rows => do
      let parsed ← parseRow i row
      let later ← parseRows (i + 1) rows
      pure (parsed :: later)

/-- The end of the input, or the exception of the reader. -/
def endOfFile : Option Csv.Error → Except ImportParserError Unit
  | none => pure ()
  | some e => .error (.csv e)

/-- Parse a bank file. Empty records are passed over; the rows before a record the reader cannot
read are parsed first. -/
def parseCsv (content : String) : Except ImportParserError (List ParsedRow) := do
  let content := stripBom content
  let (records, failure) := Csv.records (detectDelimiter content) {} (Csv.lines content)
  match records with
  | [] => do
      endOfFile failure
      .error (.parse "CSV file is empty or has no header row")
  | fieldnames :: records => do
      let actualColumns := fieldnames.map fun c => stripQuotes (strip c)
      let missing := requiredColumns.filter (· ∉ actualColumns)
      raiseIf (missing ≠ []) (.parse ("Missing required columns: " ++ ", ".intercalate missing))
      let rows ← parseRows 1 ((records.filter (· ≠ [])).map (Csv.dictRow fieldnames))
      endOfFile failure
      raiseIf (rows.isEmpty = true) (.parse "CSV file contains no transaction rows")
      pure rows

/-! ### Parsed files -/

/-- What a row of a bank file is: numbered, described, and without the fields of OFX files. -/
structure ParsedRow.FromCsv (i : ℕ) (row : ParsedRow) : Prop where
  rowNumber : row.rowNumber = i
  stripped : strip row.description = row.description
  described : row.description ≠ ""
  fitid : row.fitid = none

theorem parseRow_ok {i : ℕ} {row : Csv.DictRow} {parsed : ParsedRow}
    (h : parseRow i row = .ok parsed) : parsed.FromCsv i := by
  unfold parseRow at h
  simp only [↓raiseIf_bind_eq_ok, bind_eq_ok, pure_eq_ok] at h
  obtain ⟨-, date, -, amount, -, hne, rfl⟩ := h
  exact ⟨rfl, strip_strip _, hne, rfl⟩

/-- The rows of the loop are numbered one after the other. -/
theorem parseRows_ok {i : ℕ} {rows : List Csv.DictRow} {parsed : List ParsedRow}
    (h : parseRows i rows = .ok parsed) :
    parsed.length = rows.length ∧
      ∀ (k : ℕ) (row : ParsedRow), parsed[k]? = some row → row.FromCsv (i + k) := by
  induction rows generalizing i parsed with
  | nil =>
    rw [parseRows, pure_eq_ok] at h
    rw [← h]
    exact ⟨rfl, fun k row hk => by simp at hk⟩
  | cons row rows ih =>
    rw [parseRows] at h
    simp only [bind_eq_ok, pure_eq_ok] at h
    obtain ⟨first, hfirst, later, hlater, rfl⟩ := h
    obtain ⟨hlength, hrows⟩ := ih hlater
    refine ⟨by rw [List.length_cons, hlength, List.length_cons], fun k r hk => ?_⟩
    cases k with
    | zero =>
      rw [List.getElem?_cons_zero, Option.some_inj] at hk
      exact hk ▸ parseRow_ok hfirst
    | succ k =>
      rw [List.getElem?_cons_succ] at hk
      rw [show i + (k + 1) = i + 1 + k by omega]
      exact hrows k r hk

/-- A parsed file has rows, which are numbered from 1 on in file order. -/
theorem parseCsv_ok {content : String} {parsed : List ParsedRow}
    (h : parseCsv content = .ok parsed) :
    parsed ≠ [] ∧
      ∀ (k : ℕ) (row : ParsedRow), parsed[k]? = some row → row.FromCsv (1 + k) := by
  unfold parseCsv at h
  dsimp only at h
  split at h
  · obtain ⟨_, -, h⟩ := bind_eq_ok.mp h
    exact absurd h (by simp)
  · simp only [↓raiseIf_bind_eq_ok, bind_eq_ok, pure_eq_ok] at h
    obtain ⟨-, rows, hrows, -, -, hne, rfl⟩ := h
    exact ⟨fun hnil => hne (by rw [hnil]; rfl), (parseRows_ok hrows).2⟩

end Pfv
