import Mathlib.Data.Int.Log
import Pfv.Services.ImportParser

/-!
# The OFX file

The preview parser of OFX files (`backend/app/services/import_ofx_service.py`). The library that
reads the file is not part of the repository: what it gives, a list of statements, an exception or
no answer in time, is an input here. Amounts are decimals of any precision; taking the absolute
value of a negative one rounds it to the context of the `decimal` module.

## Main definitions

* `Decimal.inContext`: a number rounded to the default context.
* `OfxTransaction`, `OfxStatement`, `OfxParse`: what the library gives.
* `amountToDecimal`, `toDate`, `descriptionFor`: the coercions.
* `normalizeTransaction`, `parseOfx`: the parser.
-/

namespace Pfv

/-! ### The decimal context -/

/-- Round to the nearest integer, ties to the even one. -/
def roundHalfEven (x : ℚ) : ℤ :=
  if x - ⌊x⌋ < 1 / 2 then ⌊x⌋
  else if 1 / 2 < x - ⌊x⌋ then ⌊x⌋ + 1
  else if ⌊x⌋ % 2 = 0 then ⌊x⌋ else ⌊x⌋ + 1

/-- A number rounded to 28 digits and the smallest exponent. A number whose exponent is too large
has no value: the signal is an exception. -/
def Decimal.inContext (q : ℚ) : Option ℚ :=
  let last : ℤ := max (Int.log 10 |q| - 27) (-1000026)
  let rounded : ℚ := roundHalfEven (q / 10 ^ last) * 10 ^ last
  if 999999 < Int.log 10 |rounded| then none else some rounded

/-! ### What the library gives -/

/-- An amount: a decimal, or another value with its text. -/
inductive OfxAmount
  | decimal (value : Decimal)
  | other (text : String)

/-- A date of posting: a date or a datetime, or another value with its text. -/
inductive OfxDate
  | date (value : Date)
  | other (text : String)

structure OfxTransaction where
  trnamt : Option OfxAmount := none
  dtposted : Option OfxDate := none
  name : Option String := none
  memo : Option String := none
  fitid : Option String := none
  payeeName : Option String := none
  trntype : Option String := none

/-- The account of a statement; that of a credit card has neither field. -/
structure OfxAccount where
  bankid : Option String := none
  accttype : Option String := none
  isCreditCard : Bool := false

structure OfxStatement where
  transactions : List OfxTransaction := []
  account : Option OfxAccount := none

/-- The outcome of the library within the time bound. -/
inductive OfxParse
  | timeout
  | failed (message : String)
  | converted (statements : List OfxStatement)

/-! ### Bounds and errors -/

structure OfxBounds where
  maxBytes : ℕ := 5 * 1024 * 1024
  timeoutS : ℕ := 10
  maxRows : ℕ := 10000

/-- The signals of the `decimal` module that raise. -/
inductive DecimalSignal
  | invalidOperation
  | overflow
  deriving DecidableEq

/-- `ParseError`, `HTTPException`, and the exceptions of the `decimal` module. -/
inductive OfxError
  | parse (message : String)
  | http (status : ℕ) (detail : String)
  | decimal (signal : DecimalSignal)
  deriving DecidableEq

/-! ### Coercions -/

/-- The account types of the response schema. -/
def accountTypes : List String :=
  ["CHECKING", "SAVINGS", "CREDITLINE", "MONEYMRKT"]

/-- Normalize an account type; other values are dropped. -/
def coerceAccountType (value : Option String) : Option String :=
  (value.map fun s => (strip s).map Char.toUpper).filter (· ∈ accountTypes)

/-- A decimal, or the decimal of a text. -/
def amountToDecimal : OfxAmount → Option Decimal
  | .decimal value => some value
  | .other text => Decimal.ofString text

def toDate : OfxDate → Except OfxError Date
  | .date value => .ok value
  | .other text => .error (.parse ("Unparseable DTPOSTED: " ++ text))

/-- A text that is there and not empty, stripped. -/
def stripped (value : Option String) : Option String :=
  (value.filter (· ≠ "")).map strip

/-- The name, else the memo, else a placeholder. -/
def descriptionFor (tx : OfxTransaction) : String :=
  ((stripped tx.name).or (stripped tx.memo)).getD "(no description)"

/-! ### Normalization -/

/-- The fields every row of a statement shares. -/
structure AccountExtras where
  bankId : Option String
  accountTypeOfx : Option String

def accountExtras (account : Option OfxAccount) : AccountExtras where
  bankId := stripped (account.bind (·.bankid))
  accountTypeOfx := (coerceAccountType (account.bind (·.accttype))).or
    (if account.any (·.isCreditCard) then some "CREDITLINE" else none)

/-- The type and the absolute value of an amount. Comparing a NaN raises, and so does the opposite
of a number too large for the context. -/
def splitAmount : Decimal → Except DecimalSignal (EntryType × Decimal)
  | .nan _ => .error .invalidOperation
  | .infinity negative => .ok (if negative then .expense else .income, .infinity false)
  | .finite q =>
      if 0 < q then .ok (.income, .finite q)
      else
        match Decimal.inContext (-q) with
        | none => .error .overflow
        | some amount => .ok (.expense, .finite amount)

/-- One turn of the loop: a transaction without amount or date, or with one that cannot be read, and
a transaction of no amount are skipped. -/
def normalizeTransaction (extras : AccountExtras) (i : ℕ) (tx : OfxTransaction) :
    Except OfxError (Option ParsedRow) :=
  match tx.trnamt.bind amountToDecimal, tx.dtposted.bind fun d => (toDate d).toOption with
  | some amountRaw, some rowDate =>
      match splitAmount amountRaw with
      | .error signal => .error (.decimal signal)
      | .ok (rowType, amountAbs) =>
          if amountAbs = .finite 0 then .ok none
          else
            .ok (some
              { rowNumber := i
                date := rowDate
                description := descriptionFor tx
                amount := amountAbs
                type := rowType
                counterparty := stripped tx.payeeName
                transactionType := stripped tx.trntype
                fitid := stripped tx.fitid
                bankId := extras.bankId
                accountTypeOfx := extras.accountTypeOfx })
  | _, _ => .ok none

/-- The loop over the transactions, which are numbered in file order. -/
def normalizeTransactions (extras : AccountExtras) :
    ℕ → List OfxTransaction → Except OfxError (List ParsedRow)
  | _, [] => pure []
  | i, tx :: txs => do
      let row ← normalizeTransaction extras i tx
      let later ← normalizeTransactions extras (i + 1) txs
      pure (row.toList ++ later)

/-! ### The parser -/

/-- The statements of an outcome. -/
def ofxStatements (bounds : OfxBounds) : OfxParse → Except OfxError (List OfxStatement)
  | .timeout => .error (.http 400 ("OFX file too complex to parse within " ++
      toString bounds.timeoutS ++ " seconds; split into smaller exports."))
  | .failed message => .error (.parse ("OFX parse failed: " ++ message))
  | .converted statements => .ok statements

/-- Parse an OFX file of a size, given what the library makes of it. -/
def parseOfx (bounds : OfxBounds) (size : ℕ) (outcome : OfxParse) :
    Except OfxError (List ParsedRow) := do
  raiseIf (bounds.maxBytes < size) (.http 413 ("OFX file too large (" ++ toString size ++
    " bytes; max " ++ toString (bounds.maxBytes / 1024 / 1024) ++
    " MB). Split by date range and re-upload."))
  let statements ← ofxStatements bounds outcome
  let stmt ← orRaise statements.head? (.parse "OFX parse failed: no statements found in file.")
  raiseIf (stmt.transactions = []) (.parse "OFX parse failed: no transactions in <TRANLIST>.")
  raiseIf (bounds.maxRows < stmt.transactions.length) (.http 413 ("OFX file contains " ++
    toString stmt.transactions.length ++ " transactions; max " ++ toString bounds.maxRows ++
    ". Split by date range."))
  let parsed ← normalizeTransactions (accountExtras stmt.account) 1 stmt.transactions
  raiseIf (parsed = []) (.parse "OFX parse failed: no usable transactions after normalization.")
  pure parsed

end Pfv
