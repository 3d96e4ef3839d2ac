import Mathlib.Tactic

/-!
# Delimited text

A reader of delimited text with the default dialect of Python's `csv` module: fields may be quoted
with `"`, a doubled quote stands for one, and nothing is escaped or skipped. The text comes in
lines, and a quoted field may run over several of them. Records are read one at a time, so that
everything before a malformed line has been read when the reader fails.

## Main definitions

* `Csv.Reader`, `Csv.Reader.process`: the reader, one character at a time.
* `Csv.lines`, `Csv.records`: the lines of a text, and the records of its lines.
* `Csv.dictRow`: a record under the names of its fields, as `csv.DictReader` returns it.
-/

namespace Pfv.Csv

/-! ### The reader -/

/-- What the reader expects next. -/
inductive State
  | startRecord
  | startField
  | inField
  | inQuotedField
  | quoteInQuotedField
  | eatCrnl
  deriving DecidableEq

/-- The failures of the reader: a line break inside an unquoted field, and a field longer than
`csv.field_size_limit()`. -/
inductive Error
  | newLineInField
  | fieldLimit
  deriving DecidableEq

structure Reader where
  state : State := .startRecord
  fields : List String := []
  field : List Char := []

def fieldSizeLimit : ℕ := 131072

namespace Reader

/-- `parse_save_field`. -/
def saveField (r : Reader) (next : State) : Reader :=
  { state := next, fields := r.fields ++ [String.ofList r.field], field := [] }

/-- `parse_add_char`. -/
def addChar (r : Reader) (c : Char) (next : State) : Except Error Reader :=
  if fieldSizeLimit ≤ r.field.length then .error .fieldLimit
  else .ok { r with state := next, field := r.field ++ [c] }

/-- One character at the start of a field. -/
def processStart (delimiter : Char) (r : Reader) (c : Char) : Except Error Reader :=
  if c = '\n' ∨ c = '\r' then .ok (r.saveField .eatCrnl)
  else if c = '"' then .ok { r with state := .inQuotedField }
  else if c = delimiter then .ok (r.saveField .startField)
  else r.addChar c .inField

/-- One character of a line, or `none` for the end of the line. -/
def process (delimiter : Char) (r : Reader) : Option Char → Except Error Reader
  | none =>
      match r.state with
      | .startRecord | .inQuotedField => .ok r
      | .startField | .inField | .quoteInQuotedField => .ok (r.saveField .startRecord)
      | .eatCrnl => .ok { r with state := .startRecord }
  | some c =>
      match r.state with
      | .startRecord =>
          if c = '\n' ∨ c = '\r' then .ok { r with state := .eatCrnl }
          else r.processStart delimiter c
      | .startField => r.processStart delimiter c
      | .inField =>
          if c = '\n' ∨ c = '\r' then .ok (r.saveField .eatCrnl)
          else if c = delimiter then .ok (r.saveField .startField)
          else r.addChar c .inField
      | .inQuotedField =>
          if c = '"' then .ok { r with state := .quoteInQuotedField }
          else r.addChar c .inQuotedField
      | .quoteInQuotedField =>
          if c = '"' then r.addChar c .inQuotedField
          else if c = delimiter then .ok (r.saveField .startField)
          else if c = '\n' ∨ c = '\r' then .ok (r.saveField .eatCrnl)
          else r.addChar c .inField
      | .eatCrnl =>
          if c = '\n' ∨ c = '\r' then .ok r else .error .newLineInField

/-- One line and its end. -/
def readLine (delimiter : Char) (r : Reader) (line : List Char) : Except Error Reader :=
  (line.map some ++ [none]).foldlM (process delimiter) r

end Reader

/-! ### Records -/

/-- The lines of a text, each with its line feed. -/
def lines : List Char → List (List Char)
  | [] => []
  | c :: cs =>
      if c = '\n' then [c] :: lines cs
      else
        match lines cs with
        | [] => [[c]]
        | line :: rest => (c :: line) :: rest

/-- The records of the lines of a text and the failure the reader ended with. A quoted field that is
still open at the end of the text ends there. -/
def records (delimiter : Char) : Reader → List (List Char) → List (List String) × Option Error
  | r, [] =>
      if r.field ≠ [] ∨ r.state = .inQuotedField then ([(r.saveField .startRecord).fields], none)
      else ([], none)
  | r, line :: rest =>
      match r.readLine delimiter line with
      | .error e => ([], some e)
      | .ok r' =>
          if r'.state = .startRecord then
            let (later, e) := records delimiter {} rest
            (r'.fields :: later, e)
          else records delimiter r' rest

/-! ### Dictionaries -/

section Dict

variable {α β : Type} [DecidableEq α]

/-- Set a key of a dictionary; a key keeps the place at which it was first inserted. -/
def dictSet (d : List (α × β)) (k : α) (v : β) : List (α × β) :=
  if d.any (·.1 = k) then d.map fun p => if p.1 = k then (k, v) else p else d ++ [(k, v)]

/-- The dictionary of a list of items. -/
def dictOf (items : List (α × β)) : List (α × β) :=
  items.foldl (fun d p => dictSet d p.1 p.2) []

end Dict

/-- A record under the names of its fields. A missing value is `none`; the values beyond the last
name are kept under no name. -/
structure DictRow where
  cells : List (String × Option String)
  rest : List String

/-- A row of `csv.DictReader`. -/
def dictRow (fieldnames row : List String) : DictRow where
  cells := dictOf ((fieldnames.zip row).map (fun p => (p.1, some p.2)) ++
    (fieldnames.drop row.length).map fun k => (k, none))
  rest := row.drop fieldnames.length

end Pfv.Csv
