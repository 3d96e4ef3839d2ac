import Pfv.Services.ImportParser

/-!
# What the parser of a bank file returns

The parser answers most malformed files with a parse error. A record with more values than the
header has names and a text that the `csv` module cannot read are answered with other exceptions,
and a row may have an amount that is no positive number or a direction that is neither of the two
words.

## Main definitions

* `dataRecords`: the records of a file below its header.
* `Csv.DictRow.Readable`, `Csv.DictRow.Refused`, `Csv.DictRow.Sound`: records that are parsed,
  refused with a parse error, and parsed to a row that can be confirmed.
* `SaneResult`: a parse error, or one confirmable row for each record.
* `CleanFile`: the files with such a result.

## Main results

* `parseRow_of_readable`, `parseRow_of_refused`, `parseRow_of_rest`: what one record gives.
* `parseRows_eq_ok`, `parseRows_parse_iff`: what all of them give.
* `parseCsv_sane_iff`: the files whose result is sane.
-/

namespace Pfv

/-! ### One record -/

/-- A record that is parsed to a row. -/
structure Csv.DictRow.Readable (record : Csv.DictRow) : Prop where
  fits : record.rest = []
  date : ∃ d, parseDateYyyymmdd (columnOf record "Date" "") = .ok d
  amount : ∃ a, parseAmount (columnOf record "Amount (EUR)" "0") = .ok a
  described : strip (columnOf record "Name / Description" "") ≠ ""

/-- A record that is refused with a parse error. -/
def Csv.DictRow.Refused (record : Csv.DictRow) : Prop :=
  record.rest = [] ∧ ¬record.Readable

/-- A record that is parsed to a row that can be confirmed: its amount is a positive number, and its
direction is one of the two words. -/
structure Csv.DictRow.Sound (record : Csv.DictRow) : Prop where
  readable : record.Readable
  amount : ∃ q, parseAmount (columnOf record "Amount (EUR)" "0") = .ok (.finite q) ∧ 0 < q
  direction : columnOf record "Debit/credit" "" = "Debit" ∨
    columnOf record "Debit/credit" "" = "Credit"

/-- A row is that of a record. -/
structure ParsedRow.ReadFrom (i : ℕ) (record : Csv.DictRow) (row : ParsedRow) : Prop where
  rowNumber : row.rowNumber = i
  date : parseDateYyyymmdd (columnOf record "Date" "") = .ok row.date
  amount : parseAmount (columnOf record "Amount (EUR)" "0") = .ok row.amount
  described : row.description ≠ ""
  type : row.type = if columnOf record "Debit/credit" "" = "Debit" then .expense else .income

section

variable {record : Csv.DictRow} {records : List Csv.DictRow} {i : ℕ}

theorem mapError_of_ok {ε ε' α : Type} {x : Except ε α} {f : ε → ε'} {a : α} (h : x = .ok a) :
    x.mapError f = .ok a := by
  rw [h]
  rfl

theorem mapError_of_error {ε ε' α : Type} {x : Except ε α} {f : ε → ε'} {e : ε}
    (h : x = .error e) : x.mapError f = .error (f e) := by
  rw [h]
  rfl

theorem parseRow_of_rest (h : record.rest ≠ []) : parseRow i record = .error .attribute := by
  unfold parseRow
  rw [bind_of_error (raiseIf_of h)]

theorem parseRow_of_readable (h : record.Readable) :
    ∃ row, parseRow i record = .ok row ∧ row.ReadFrom i record := by
  obtain ⟨d, hd⟩ := h.date
  obtain ⟨a, ha⟩ := h.amount
  unfold parseRow
  rw [bind_of_ok (raiseIf_of_not (not_not.mpr h.fits))]
  dsimp only
  rw [bind_of_ok (mapError_of_ok hd), bind_of_ok (mapError_of_ok ha),
    bind_of_ok (raiseIf_of_not h.described)]
  exact ⟨_, rfl, rfl, hd, ha, h.described, rfl⟩

theorem parseRow_of_refused (h : record.Refused) :
    ∃ message, parseRow i record = .error (.parse message (some i)) := by
  obtain ⟨hfits, hnot⟩ := h
  unfold parseRow
  rw [bind_of_ok (raiseIf_of_not (not_not.mpr hfits))]
  dsimp only
  cases hd : parseDateYyyymmdd (columnOf record "Date" "") with
  | error message => exact ⟨message, bind_of_error (mapError_of_error rfl)⟩
  | ok d =>
    cases ha : parseAmount (columnOf record "Amount (EUR)" "0") with
    | error message =>
      exact ⟨message, (bind_of_ok (mapError_of_ok rfl)).trans
        (bind_of_error (mapError_of_error rfl))⟩
    | ok a =>
      have hblank : strip (columnOf record "Name / Description" "") = "" := by
        by_contra hne
        exact hnot ⟨hfits, ⟨d, hd⟩, ⟨a, ha⟩, hne⟩
      exact ⟨"Empty description", (bind_of_ok (mapError_of_ok rfl)).trans
        ((bind_of_ok (mapError_of_ok rfl)).trans (bind_of_error (raiseIf_of hblank)))⟩

theorem parseRow_readFrom {row : ParsedRow} (h : parseRow i record = .ok row) :
    record.Readable ∧ row.ReadFrom i record := by
  by_cases hfits : record.rest = []
  · by_cases hreadable : record.Readable
    · obtain ⟨row', hrow', hfrom⟩ := @parseRow_of_readable record i hreadable
      rw [hrow', Except.ok.injEq] at h
      exact ⟨hreadable, h ▸ hfrom⟩
    · obtain ⟨message, herror⟩ := @parseRow_of_refused record i ⟨hfits, hreadable⟩
      rw [herror] at h
      cases h
  · rw [parseRow_of_rest hfits] at h
    cases h

/-! ### All records -/

/-- Every row is that of its record. -/
theorem parseRows_readFrom {rows : List ParsedRow} (h : parseRows i records = .ok rows) :
    List.Forall₂ (fun p row => p.1.Readable ∧ row.ReadFrom p.2 p.1) (records.zipIdx i) rows := by
  induction records generalizing i rows with
  | nil =>
    rw [parseRows, pure_eq_ok] at h
    rw [← h]
    exact .nil
  | cons record records ih =>
    rw [parseRows] at h
    simp only [bind_eq_ok, pure_eq_ok] at h
    obtain ⟨row, hrow, rows, hrows, rfl⟩ := h
    rw [List.zipIdx_cons]
    exact .cons (parseRow_readFrom hrow) (ih hrows)

/-- A record is refused, and no record before it has more values than names. -/
def RefusedFirst (records : List Csv.DictRow) : Prop :=
  ∃ before record after, records = before ++ record :: after ∧ (∀ r ∈ before, r.rest = []) ∧
    record.Refused

theorem refusedFirst_cons : RefusedFirst (record :: records) ↔
    record.Refused ∨ record.rest = [] ∧ RefusedFirst records := by
  constructor
  · rintro ⟨before, r, after, heq, hfits, hrefused⟩
    cases before with
    | nil =>
      obtain ⟨rfl, -⟩ := List.cons.inj heq
      exact .inl hrefused
    | cons b before =>
      obtain ⟨rfl, rfl⟩ := List.cons.inj heq
      exact .inr ⟨hfits _ List.mem_cons_self, before, r, after, rfl,
        fun r hr => hfits r (List.mem_cons_of_mem _ hr), hrefused⟩
  · rintro (hrefused | ⟨hrest, before, r, after, rfl, hfits, hrefused⟩)
    · exact ⟨[], record, records, rfl, by simp, hrefused⟩
    · refine ⟨record :: before, r, after, rfl, ?_, hrefused⟩
      simpa using ⟨hrest, hfits⟩

/-- What the loop over the records gives. -/
theorem parseRows_cases (records : List Csv.DictRow) (i : ℕ) :
    (RefusedFirst records ∧ ∃ message n, parseRows i records = .error (.parse message n)) ∨
      ¬RefusedFirst records ∧
        ((∀ r ∈ records, r.Readable) ∧ (∃ rows, parseRows i records = .ok rows) ∨
          (∃ r ∈ records, r.rest ≠ []) ∧ parseRows i records = .error .attribute) := by
  induction records generalizing i with
  | nil => exact .inr ⟨fun ⟨_, _, _, h, _⟩ => by simp at h, .inl ⟨by simp, [], rfl⟩⟩
  | cons record records ih =>
    rw [refusedFirst_cons, parseRows]
    by_cases hfits : record.rest = []
    · by_cases hreadable : record.Readable
      · -- The record is parsed, and the rest decides.
        have hnot : ¬record.Refused := fun h => h.2 hreadable
        obtain ⟨row, hrow, -⟩ := @parseRow_of_readable record i hreadable
        rw [or_iff_right hnot, and_iff_right hfits, bind_of_ok hrow]
        rcases ih (i + 1) with ⟨hfirst, message, n, herror⟩ | ⟨hfirst, ⟨hall, rows, hok⟩ |
          ⟨⟨r, hr, hrest⟩, herror⟩⟩
        · exact .inl ⟨hfirst, message, n, bind_of_error herror⟩
        · refine .inr ⟨hfirst, .inl ⟨?_, row :: rows, bind_of_ok hok⟩⟩
          simpa using ⟨hreadable, hall⟩
        · exact .inr ⟨hfirst, .inr ⟨⟨r, List.mem_cons_of_mem _ hr, hrest⟩, bind_of_error herror⟩⟩
      · obtain ⟨message, herror⟩ := @parseRow_of_refused record i ⟨hfits, hreadable⟩
        exact .inl ⟨.inl ⟨hfits, hreadable⟩, message, some i, bind_of_error herror⟩
    · refine .inr ⟨?_, .inr ⟨⟨record, List.mem_cons_self, hfits⟩,
        bind_of_error (parseRow_of_rest hfits)⟩⟩
      rintro (h | h)
      · exact hfits h.1
      · exact hfits h.1

end

/-! ### The file -/

/-- The records of a file, and the failure its reader ended with. -/
def fileRecords (content : String) : List (List String) × Option Csv.Error :=
  Csv.records (detectDelimiter (stripBom content)) {} (Csv.lines (stripBom content))

/-- The records below the header that are not empty, under the names of the header. -/
def dataRecords (content : String) : List Csv.DictRow :=
  match (fileRecords content).1 with
  | [] => []
  | fieldnames :: records => (records.filter (· ≠ [])).map (Csv.dictRow fieldnames)

/-- A row can be confirmed and has the direction its record reads. -/
structure ParsedRow.SaneFor (record : Csv.DictRow) (i : ℕ) (row : ParsedRow) : Prop where
  rowNumber : row.rowNumber = i
  date : parseDateYyyymmdd (columnOf record "Date" "") = .ok row.date
  described : row.description ≠ ""
  amount : ∃ q, row.amount = .finite q ∧ 0 < q
  expense : row.type = .expense ↔ columnOf record "Debit/credit" "" = "Debit"
  income : row.type = .income ↔ columnOf record "Debit/credit" "" = "Credit"

/-- A parse error, or rows: at least one, one for each record in file order, each of which can be
confirmed. -/
def SaneResult (content : String) : Except ImportParserError (List ParsedRow) → Prop
  | .error (.parse _ _) => True
  | .error _ => False
  | .ok rows => rows ≠ [] ∧
      List.Forall₂ (fun p row => row.SaneFor p.1 p.2) ((dataRecords content).zipIdx 1) rows

/-- A file is empty, or lacks a required column, or has a record that is refused with no record
before it that has more values than names; or its reader comes to the end, and all its records are
sound. -/
def CleanFile (content : String) : Prop :=
  match (fileRecords content).1 with
  | [] => (fileRecords content).2 = none
  | fieldnames :: _ =>
      (∃ c ∈ requiredColumns, c ∉ fieldnames.map fun c => stripQuotes (strip c)) ∨
        RefusedFirst (dataRecords content) ∨
        (fileRecords content).2 = none ∧ ∀ r ∈ dataRecords content, r.Sound

section

variable {content : String} {record : Csv.DictRow} {i : ℕ} {row : ParsedRow}

/-- The row of a record is sane exactly when the record is sound. -/
theorem ParsedRow.ReadFrom.sane_iff (h : row.ReadFrom i record) (hreadable : record.Readable) :
    row.SaneFor record i ↔ record.Sound := by
  constructor
  · intro hsane
    refine ⟨hreadable, ?_, ?_⟩
    · obtain ⟨q, hq, hpos⟩ := hsane.amount
      exact ⟨q, hq ▸ h.amount, hpos⟩
    · cases htype : row.type with
      | expense => exact .inl (hsane.expense.mp htype)
      | income => exact .inr (hsane.income.mp htype)
  · rintro ⟨-, ⟨q, hq, hpos⟩, hdirection⟩
    have hamount : row.amount = .finite q := by
      have hamount := h.amount
      rw [hq, Except.ok.injEq] at hamount
      exact hamount.symm
    refine ⟨h.rowNumber, h.date, h.described, ⟨q, hamount, hpos⟩, ?_, ?_⟩
    · rw [h.type]
      rcases hdirection with hword | hword
      · simp [hword]
      · simp [hword]
    · rw [h.type]
      rcases hdirection with hword | hword
      · simp [hword]
      · simp [hword]

theorem forall₂_sane_iff {records : List Csv.DictRow} {rows : List ParsedRow}
    (h : List.Forall₂ (fun p row => p.1.Readable ∧ row.ReadFrom p.2 p.1) (records.zipIdx i) rows) :
    List.Forall₂ (fun p row => row.SaneFor p.1 p.2) (records.zipIdx i) rows ↔
      ∀ r ∈ records, r.Sound := by
  induction records generalizing i rows with
  | nil =>
    rw [List.zipIdx_nil] at h ⊢
    cases h
    exact iff_of_true .nil (by simp)
  | cons record records ih =>
    rw [List.zipIdx_cons] at h ⊢
    cases h with
    | cons hrow hrows =>
      rw [List.forall₂_cons, List.forall_mem_cons, ih hrows, hrow.2.sane_iff hrow.1]

/-- The parser returns a parse error or one confirmable row for each record, for every text, if and
only if the file is clean. -/
theorem parseCsv_sane_iff (content : String) :
    SaneResult content (parseCsv content) ↔ CleanFile content := by
  unfold CleanFile parseCsv
  dsimp only
  rw [← fileRecords]
  rcases hfile : fileRecords content with ⟨_ | ⟨fieldnames, records⟩, failure⟩
  · dsimp only
    cases failure with
    | none => exact iff_of_true trivial rfl
    | some e =>
      rw [bind_of_error (rfl : endOfFile (some e) = .error (.csv e))]
      exact iff_of_false id (by simp)
  have hdata : dataRecords content = (records.filter (· ≠ [])).map (Csv.dictRow fieldnames) := by
    unfold dataRecords
    rw [hfile]
  dsimp only
  rw [← hdata]
  set missing := requiredColumns.filter (· ∉ fieldnames.map fun c => stripQuotes (strip c)) with
    hmissing
  have hcolumns : missing ≠ [] ↔
      ∃ c ∈ requiredColumns, c ∉ fieldnames.map fun c => stripQuotes (strip c) := by
    rw [hmissing, ne_eq, List.filter_eq_nil_iff]
    simp only [decide_eq_true_eq, not_forall, not_not, exists_prop]
  rw [← hcolumns]
  by_cases hnone : missing ≠ []
  · rw [bind_of_error (raiseIf_of hnone)]
    exact iff_of_true trivial (.inl hnone)
  rw [bind_of_ok (raiseIf_of_not hnone), or_iff_right hnone]
  rcases parseRows_cases (dataRecords content) 1 with
    ⟨hfirst, message, n, herror⟩ | ⟨hfirst, ⟨-, rows, hok⟩ | ⟨⟨r, hr, hrest⟩, herror⟩⟩
  · rw [bind_of_error herror]
    exact iff_of_true trivial (.inl hfirst)
  · rw [bind_of_ok hok, or_iff_right hfirst]
    have hrows := parseRows_readFrom hok
    cases failure with
    | some e =>
      rw [bind_of_error (rfl : endOfFile (some e) = .error (.csv e))]
      exact iff_of_false id (by simp)
    | none =>
      rw [bind_of_ok (rfl : endOfFile none = .ok ()), and_iff_right rfl,
        ← forall₂_sane_iff hrows]
      cases rows with
      | nil =>
        have hempty : ([] : List ParsedRow).isEmpty = true := rfl
        rw [bind_of_error (raiseIf_of hempty)]
        have hzip : (dataRecords content).zipIdx 1 = [] := List.forall₂_nil_right_iff.mp hrows
        exact iff_of_true trivial (hzip ▸ .nil)
      | cons row rows =>
        rw [bind_of_ok (raiseIf_of_not (by simp))]
        exact and_iff_right (List.cons_ne_nil row rows)
  · rw [bind_of_error herror, or_iff_right hfirst]
    exact iff_of_false id fun h => hrest (h.2 r hr).readable.fits

end

/-! ### Sample files -/

/-- A file with commas and one record. -/
def sampleExport (record : String) : String :=
  "Date,Name / Description,Debit/credit,Amount (EUR)\n" ++ record ++ "\n"

/-- A decimal comma that is not quoted makes a field too many, and an amount that is not a number is
taken for one. -/
theorem sampleExport_not_sane :
    ¬SaneResult (sampleExport "20260406,Shop,Debit,10,00")
        (parseCsv (sampleExport "20260406,Shop,Debit,10,00")) ∧
      ¬SaneResult (sampleExport "20260406,Shop,Debit,NaN")
        (parseCsv (sampleExport "20260406,Shop,Debit,NaN")) := by
  have hcomma : parseCsv (sampleExport "20260406,Shop,Debit,10,00") = .error .attribute := by
    decide +kernel
  have hnan : parseCsv (sampleExport "20260406,Shop,Debit,NaN") =
      .ok [{ rowNumber := 1
             date := ⟨2026, 4, 6, by decide, by decide, by decide, by decide, by decide⟩
             description := "Shop", amount := .nan false, type := .expense }] := by
    decide +kernel
  constructor
  · rw [hcomma]
    exact id
  · rw [hnan]
    rintro ⟨-, hrows⟩
    obtain ⟨p, _, hsane, -⟩ := List.forall₂_cons_right_iff.mp hrows
    obtain ⟨q, hq, -⟩ := hsane.amount
    cases hq

end Pfv
