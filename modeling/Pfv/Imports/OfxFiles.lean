import Mathlib.Data.List.Forall2
import Pfv.Services.OfxParser

/-!
# What the parser of an OFX file loses

The parser reads the first statement of a file alone. Of its transactions it keeps those with a date
and an amount, but a blank name gives a blank description, the opposite of a long amount is rounded,
and an amount that is no number ends the parser with an exception of the `decimal` module.

## Main definitions

* `OfxTransaction.Payment`: a transaction with a date and a finite amount other than zero.
* `ParsedRow.Shows`: a row that represents a payment.
* `KeepsPayments`: a rejection, or rows that represent all payments of all statements.
* `OfxTransaction.Raises`, `OfxTransaction.Skipped`, `OfxTransaction.Kept`: what the loop does with
  a transaction.

## Main results

* `normalizeTransactions_cases`: what the loop gives.
* `forall₂_payments_iff`: when its rows represent all payments of the statement.
* `parseOfx_keepsPayments_iff`: the files of which nothing is lost.
-/

namespace Pfv

/-! ### Transactions -/

/-- The amount and the date of a transaction, when it has both and they can be read. -/
def OfxTransaction.entry (tx : OfxTransaction) : Option (Decimal × Date) :=
  (tx.trnamt.bind amountToDecimal).bind fun a =>
    (tx.dtposted.bind fun d => (toDate d).toOption).map fun d => (a, d)

/-- The amount and the date of a payment: a transaction whose amount is finite and not zero. -/
def OfxTransaction.payment (tx : OfxTransaction) : Option (ℚ × Date) :=
  match tx.entry with
  | some (.finite q, d) => if q = 0 then none else some (q, d)
  | _ => none

def OfxTransaction.Payment (tx : OfxTransaction) : Prop :=
  tx.payment.isSome = true

instance (tx : OfxTransaction) : Decidable tx.Payment :=
  inferInstanceAs (Decidable (_ = true))

/-- A row represents a payment: its date, its absolute amount, income exactly for a positive amount,
and a description that is not blank. -/
def ParsedRow.Shows (tx : OfxTransaction) (row : ParsedRow) : Prop :=
  ∃ q d, tx.payment = some (q, d) ∧ row.date = d ∧ row.amount = .finite |q| ∧
    (row.type = .income ↔ 0 < q) ∧ strip row.description ≠ ""

/-- The amount of a row is finite. -/
def ParsedRow.IsFinite (row : ParsedRow) : Bool :=
  match row.amount with
  | .finite _ => true
  | _ => false

/-- A rejection, or rows of which those with a finite amount represent the payments of all
statements, each of them once and in file order. -/
def KeepsPayments (statements : List OfxStatement) : Except OfxError (List ParsedRow) → Prop
  | .error (.decimal _) => False
  | .error _ => True
  | .ok rows => List.Forall₂ (fun tx row => row.Shows tx)
      ((statements.flatMap (·.transactions)).filter (·.Payment)) (rows.filter (·.IsFinite))

/-- An amount that cannot be compared, or whose opposite is too large. -/
def OfxTransaction.Raises (tx : OfxTransaction) : Prop :=
  ∃ a d, tx.entry = some (a, d) ∧ ∃ signal, splitAmount a = .error signal

/-- A transaction that gives no row: without amount or date, or of no amount after rounding. -/
def OfxTransaction.Skipped (tx : OfxTransaction) : Prop :=
  ∀ a d, tx.entry = some (a, d) → ∃ type, splitAmount a = .ok (type, .finite 0)

/-- A payment is kept as it is: its opposite is not rounded when it is negative, and its name, or
its memo when it has no name, is not blank. -/
def OfxTransaction.Kept (tx : OfxTransaction) : Prop :=
  (∀ q d, tx.payment = some (q, d) → q < 0 → Decimal.inContext (-q) = some (-q)) ∧
    strip (descriptionFor tx) ≠ ""

section

variable {tx : OfxTransaction} {txs : List OfxTransaction} {extras : AccountExtras} {i : ℕ}

theorem payment_eq_some {q : ℚ} {d : Date} :
    tx.payment = some (q, d) ↔ tx.entry = some (.finite q, d) ∧ q ≠ 0 := by
  unfold OfxTransaction.payment
  split
  · next q' d' h =>
    rw [h]
    split_ifs with hq
    · refine iff_of_false (by simp) fun ⟨heq, hne⟩ => hne ?_
      simp only [Option.some.injEq, Prod.mk.injEq, Decimal.finite.injEq] at heq
      rw [← heq.1, hq]
    · simp only [Option.some.injEq, Prod.mk.injEq, Decimal.finite.injEq]
      constructor
      · rintro ⟨rfl, rfl⟩
        exact ⟨⟨rfl, rfl⟩, hq⟩
      · exact fun h => h.1
  · next hne =>
    exact iff_of_false (by simp) fun h => hne q d h.1

/-- The row of a transaction with its date, type and absolute amount. -/
def OfxTransaction.row (tx : OfxTransaction) (extras : AccountExtras) (i : ℕ) (d : Date)
    (type : EntryType) (amount : Decimal) : ParsedRow where
  rowNumber := i
  date := d
  description := descriptionFor tx
  amount := amount
  type := type
  counterparty := stripped tx.payeeName
  transactionType := stripped tx.trntype
  fitid := stripped tx.fitid
  bankId := extras.bankId
  accountTypeOfx := extras.accountTypeOfx

theorem normalizeTransaction_of_none (h : tx.entry = none) :
    normalizeTransaction extras i tx = .ok none := by
  unfold OfxTransaction.entry at h
  unfold normalizeTransaction
  cases hamount : tx.trnamt.bind amountToDecimal with
  | none => rfl
  | some a =>
    rw [hamount, Option.bind_some, Option.map_eq_none_iff] at h
    rw [h]

theorem normalizeTransaction_of_some {a : Decimal} {d : Date} (h : tx.entry = some (a, d)) :
    normalizeTransaction extras i tx =
      match splitAmount a with
      | .error signal => .error (.decimal signal)
      | .ok (type, amount) =>
          if amount = .finite 0 then .ok none else .ok (some (tx.row extras i d type amount)) := by
  unfold OfxTransaction.entry at h
  obtain ⟨a', hamount, h⟩ := Option.bind_eq_some_iff.mp h
  obtain ⟨d', hdate, heq⟩ := Option.map_eq_some_iff.mp h
  rw [Prod.mk.injEq] at heq
  unfold normalizeTransaction
  rw [hamount, hdate, heq.1, heq.2]
  rfl

/-- The row of a transaction, if the loop gives one. -/
def rowOf (extras : AccountExtras) (i : ℕ) (tx : OfxTransaction) : Option ParsedRow :=
  (normalizeTransaction extras i tx).toOption.join

theorem normalizeTransaction_of_raises (h : tx.Raises) :
    ∃ signal, normalizeTransaction extras i tx = .error (.decimal signal) := by
  obtain ⟨a, d, hentry, signal, hsignal⟩ := h
  exact ⟨signal, by rw [normalizeTransaction_of_some hentry, hsignal]⟩

theorem normalizeTransaction_of_not_raises (h : ¬tx.Raises) :
    normalizeTransaction extras i tx = .ok (rowOf extras i tx) := by
  have hok : ∃ row, normalizeTransaction extras i tx = .ok row := by
    cases hentry : tx.entry with
    | none => exact ⟨none, normalizeTransaction_of_none hentry⟩
    | some p =>
      obtain ⟨a, d⟩ := p
      rw [normalizeTransaction_of_some hentry]
      cases hsplit : splitAmount a with
      | error signal => exact absurd ⟨a, d, hentry, signal, hsplit⟩ h
      | ok r =>
        dsimp only
        split_ifs
        · exact ⟨none, rfl⟩
        · exact ⟨_, rfl⟩
  obtain ⟨row, hrow⟩ := hok
  rw [rowOf, hrow]
  rfl

theorem rowOf_eq_none_iff (h : ¬tx.Raises) : rowOf extras i tx = none ↔ tx.Skipped := by
  unfold rowOf OfxTransaction.Skipped
  cases hentry : tx.entry with
  | none =>
    rw [normalizeTransaction_of_none hentry]
    simp [Except.toOption]
  | some p =>
    obtain ⟨a, d⟩ := p
    rw [normalizeTransaction_of_some hentry]
    cases hsplit : splitAmount a with
    | error signal => exact absurd ⟨a, d, hentry, signal, hsplit⟩ h
    | ok r =>
      obtain ⟨type, amount⟩ := r
      dsimp only
      split_ifs with hzero
      · refine iff_of_true rfl fun a' d' heq => ⟨type, ?_⟩
        cases heq
        rw [hsplit, hzero]
      · refine iff_of_false (by simp [Except.toOption]) fun hskip => hzero ?_
        obtain ⟨type', hskip⟩ := hskip a d rfl
        rw [hsplit, Except.ok.injEq, Prod.mk.injEq] at hskip
        exact hskip.2

/-! ### The loop -/

/-- The rows of a statement. -/
def rowsOf (extras : AccountExtras) (i : ℕ) (txs : List OfxTransaction) : List ParsedRow :=
  (txs.zipIdx i).filterMap fun p => rowOf extras p.2 p.1

theorem rowsOf_cons_of_none (h : rowOf extras i tx = none) :
    rowsOf extras i (tx :: txs) = rowsOf extras (i + 1) txs :=
  List.filterMap_cons_none h

theorem rowsOf_cons_of_some {row : ParsedRow} (h : rowOf extras i tx = some row) :
    rowsOf extras i (tx :: txs) = row :: rowsOf extras (i + 1) txs :=
  List.filterMap_cons_some h

/-- The loop raises exactly when a transaction does, and else gives the rows in order. -/
theorem normalizeTransactions_cases (extras : AccountExtras) (txs : List OfxTransaction) (i : ℕ) :
    (∃ tx ∈ txs, tx.Raises) ∧
        (∃ signal, normalizeTransactions extras i txs = .error (.decimal signal)) ∨
      (∀ tx ∈ txs, ¬tx.Raises) ∧
        normalizeTransactions extras i txs = .ok (rowsOf extras i txs) := by
  induction txs generalizing i with
  | nil => exact .inr ⟨by simp, rfl⟩
  | cons tx txs ih =>
    rw [normalizeTransactions]
    by_cases hraises : tx.Raises
    · obtain ⟨signal, herror⟩ := @normalizeTransaction_of_raises tx extras i hraises
      exact .inl ⟨⟨tx, List.mem_cons_self, hraises⟩, signal, bind_of_error herror⟩
    · rw [bind_of_ok (normalizeTransaction_of_not_raises hraises)]
      rcases ih (i + 1) with ⟨⟨tx', htx', hraises'⟩, signal, herror⟩ | ⟨hnone, hok⟩
      · exact .inl ⟨⟨tx', List.mem_cons_of_mem _ htx', hraises'⟩, signal, bind_of_error herror⟩
      · refine .inr ⟨List.forall_mem_cons.mpr ⟨hraises, hnone⟩, ?_⟩
        rw [bind_of_ok hok]
        cases hrow : rowOf extras i tx with
        | none => rw [rowsOf_cons_of_none hrow]; rfl
        | some row => rw [rowsOf_cons_of_some hrow]; rfl

/-! ### Payments and rows -/

theorem rowOf_eq_some {row : ParsedRow} : rowOf extras i tx = some row ↔
    ∃ a d type amount, tx.entry = some (a, d) ∧ splitAmount a = .ok (type, amount) ∧
      amount ≠ .finite 0 ∧ row = tx.row extras i d type amount := by
  unfold rowOf
  cases hentry : tx.entry with
  | none =>
    rw [normalizeTransaction_of_none hentry]
    simp [Except.toOption]
  | some p =>
    obtain ⟨a, d⟩ := p
    rw [normalizeTransaction_of_some hentry]
    constructor
    · intro h
      cases hsplit : splitAmount a with
      | error signal =>
        rw [hsplit] at h
        cases h
      | ok r =>
        rw [hsplit] at h
        dsimp only at h
        split_ifs at h with hzero
        · cases h
        · exact ⟨a, d, r.1, r.2, rfl, hsplit, hzero, (Option.some.inj h).symm⟩
    · rintro ⟨a', d', type, amount, heq, hsplit, hzero, rfl⟩
      cases heq
      rw [hsplit]
      dsimp only
      rw [if_neg hzero]
      rfl

theorem inContext_zero : Decimal.inContext 0 = some 0 := by
  simp [Decimal.inContext, roundHalfEven]

theorem splitAmount_of_pos {q : ℚ} (h : 0 < q) :
    splitAmount (.finite q) = .ok (.income, .finite q) :=
  if_pos h

theorem splitAmount_of_not_pos {q : ℚ} (h : ¬0 < q) :
    splitAmount (.finite q) =
      match Decimal.inContext (-q) with
      | none => .error .overflow
      | some amount => .ok (.expense, .finite amount) :=
  if_neg h

/-- The rows with a finite amount are those of payments. -/
theorem isFinite_of_rowOf {row : ParsedRow} (h : rowOf extras i tx = some row) :
    row.IsFinite = true ↔ tx.Payment := by
  obtain ⟨a, d, type, amount, hentry, hsplit, hzero, rfl⟩ := rowOf_eq_some.mp h
  unfold OfxTransaction.Payment OfxTransaction.payment
  rw [hentry]
  cases a with
  | nan signaling => cases hsplit
  | infinity negative =>
    cases hsplit
    simp [ParsedRow.IsFinite, OfxTransaction.row]
  | finite q =>
    have hamount : q ≠ 0 ∧ ∃ r, amount = .finite r := by
      by_cases hpos : 0 < q
      · rw [splitAmount_of_pos hpos] at hsplit
        cases hsplit
        exact ⟨hpos.ne', q, rfl⟩
      · rw [splitAmount_of_not_pos hpos] at hsplit
        cases hcontext : Decimal.inContext (-q) with
        | none =>
          rw [hcontext] at hsplit
          cases hsplit
        | some r =>
          rw [hcontext] at hsplit
          cases hsplit
          refine ⟨fun hq => hzero ?_, r, rfl⟩
          rw [hq, neg_zero, inContext_zero, Option.some.injEq] at hcontext
          rw [hcontext]
    obtain ⟨hq, r, rfl⟩ := hamount
    simp [ParsedRow.IsFinite, OfxTransaction.row, hq]

/-- The row of a payment shows it exactly when the payment is kept as it is. -/
theorem shows_iff {row : ParsedRow} (h : rowOf extras i tx = some row) (hpayment : tx.Payment) :
    row.Shows tx ↔ tx.Kept := by
  obtain ⟨a, d, type, amount, hentry, hsplit, -, rfl⟩ := rowOf_eq_some.mp h
  obtain ⟨⟨q, d'⟩, hq⟩ := Option.isSome_iff_exists.mp hpayment
  obtain ⟨hentry', hne⟩ := payment_eq_some.mp hq
  rw [hentry', Option.some.injEq, Prod.mk.injEq] at hentry
  obtain ⟨rfl, rfl⟩ := hentry
  unfold ParsedRow.Shows OfxTransaction.Kept
  simp only [hq, Option.some.injEq, Prod.mk.injEq]
  by_cases hpos : 0 < q
  · rw [splitAmount_of_pos hpos] at hsplit
    cases hsplit
    constructor
    · rintro ⟨_, _, ⟨rfl, rfl⟩, -, -, -, hdescribed⟩
      exact ⟨fun q' d'' heq hneg => absurd hneg (by rw [← heq.1]; exact hpos.le.not_gt),
        hdescribed⟩
    · rintro ⟨-, hdescribed⟩
      exact ⟨q, d', ⟨rfl, rfl⟩, rfl, by rw [abs_of_pos hpos]; rfl, iff_of_true rfl hpos, hdescribed⟩
  · have hneg : q < 0 := lt_of_le_of_ne (not_lt.mp hpos) hne
    rw [splitAmount_of_not_pos hpos] at hsplit
    cases hcontext : Decimal.inContext (-q) with
    | none =>
      rw [hcontext] at hsplit
      cases hsplit
    | some r =>
      rw [hcontext] at hsplit
      cases hsplit
      constructor
      · rintro ⟨_, _, ⟨rfl, rfl⟩, -, hamount, -, hdescribed⟩
        refine ⟨fun q' d'' heq _ => ?_, hdescribed⟩
        have hr : Decimal.finite r = .finite |q| := hamount
        rw [abs_of_neg hneg, Decimal.finite.injEq] at hr
        rw [← heq.1, hcontext, hr]
      · rintro ⟨hexact, hdescribed⟩
        have hr := hexact q d' ⟨rfl, rfl⟩ hneg
        rw [hcontext, Option.some.injEq] at hr
        exact ⟨q, d', ⟨rfl, rfl⟩, rfl, by rw [abs_of_neg hneg, ← hr]; rfl,
          iff_of_false (by simp [OfxTransaction.row]) hpos, hdescribed⟩

/-- A payment that is kept gives a row. -/
theorem OfxTransaction.Kept.rowOf_ne_none (h : tx.Kept) (hpayment : tx.Payment) :
    rowOf extras i tx ≠ none := by
  obtain ⟨⟨q, d⟩, hq⟩ := Option.isSome_iff_exists.mp hpayment
  obtain ⟨hentry, hne⟩ := payment_eq_some.mp hq
  have hsplit : ∃ type, splitAmount (.finite q) = .ok (type, .finite |q|) := by
    by_cases hpos : 0 < q
    · exact ⟨.income, by rw [splitAmount_of_pos hpos, abs_of_pos hpos]⟩
    · have hneg : q < 0 := lt_of_le_of_ne (not_lt.mp hpos) hne
      exact ⟨.expense, by
        rw [splitAmount_of_not_pos hpos, h.1 q d hq hneg, abs_of_neg hneg]⟩
  obtain ⟨type, hsplit⟩ := hsplit
  have hsome : rowOf extras i tx = some _ :=
    rowOf_eq_some.mpr ⟨_, d, type, _, hentry, hsplit, by simpa using hne, rfl⟩
  exact fun hnone => by rw [hnone] at hsome; cases hsome

/-- There are at most as many rows with a finite amount as payments. -/
theorem length_rowsOf_le (extras : AccountExtras) (txs : List OfxTransaction) (i : ℕ) :
    ((rowsOf extras i txs).filter (·.IsFinite)).length ≤ (txs.filter (·.Payment)).length := by
  induction txs generalizing i with
  | nil => simp [rowsOf]
  | cons tx txs ih =>
    have hle := ih (i + 1)
    cases hrow : rowOf extras i tx with
    | none =>
      rw [rowsOf_cons_of_none hrow]
      exact hle.trans ((List.sublist_cons_self tx txs).filter _).length_le
    | some row =>
      rw [rowsOf_cons_of_some hrow]
      by_cases hpayment : tx.Payment
      · rw [List.filter_cons_of_pos ((isFinite_of_rowOf hrow).mpr hpayment),
          List.filter_cons_of_pos (by simpa using hpayment)]
        exact Nat.succ_le_succ hle
      · rw [List.filter_cons_of_neg (fun h => hpayment ((isFinite_of_rowOf hrow).mp h)),
          List.filter_cons_of_neg (by simpa using hpayment)]
        exact hle

/-- The rows of a statement show its payments and those of the statements behind it exactly when
there are none behind it and its own are kept as they are. -/
theorem forall₂_payments_iff (others : List OfxTransaction) (extras : AccountExtras)
    (txs : List OfxTransaction) (i : ℕ) :
    List.Forall₂ (fun tx row => ParsedRow.Shows tx row) ((txs ++ others).filter (·.Payment))
        ((rowsOf extras i txs).filter (·.IsFinite)) ↔
      (∀ tx ∈ others, ¬tx.Payment) ∧ ∀ tx ∈ txs, tx.Payment → tx.Kept := by
  induction txs generalizing i with
  | nil =>
    show List.Forall₂ _ (others.filter _) [] ↔ _
    rw [List.forall₂_nil_right_iff, List.filter_eq_nil_iff]
    simp
  | cons tx txs ih =>
    rw [List.cons_append, List.forall_mem_cons]
    by_cases hpayment : tx.Payment
    · rw [List.filter_cons_of_pos (by simpa using hpayment)]
      cases hrow : rowOf extras i tx with
      | none =>
        -- A payment without a row leaves too few rows.
        refine iff_of_false (fun h => ?_) fun h => (h.2.1 hpayment).rowOf_ne_none hpayment hrow
        have hlength := h.length_eq
        have hle := length_rowsOf_le extras txs (i + 1)
        rw [rowsOf_cons_of_none hrow, List.length_cons, List.filter_append,
          List.length_append] at hlength
        omega
      | some row =>
        rw [rowsOf_cons_of_some hrow,
          List.filter_cons_of_pos ((isFinite_of_rowOf hrow).mpr hpayment), List.forall₂_cons,
          shows_iff hrow hpayment, ih]
        tauto
    · rw [List.filter_cons_of_neg (by simpa using hpayment)]
      have hrows : (rowsOf extras i (tx :: txs)).filter (·.IsFinite) =
          (rowsOf extras (i + 1) txs).filter (·.IsFinite) := by
        cases hrow : rowOf extras i tx with
        | none => rw [rowsOf_cons_of_none hrow]
        | some row =>
          rw [rowsOf_cons_of_some hrow,
            List.filter_cons_of_neg fun h => hpayment ((isFinite_of_rowOf hrow).mp h)]
      rw [hrows, ih]
      tauto

theorem rowsOf_eq_nil_iff (h : ∀ tx ∈ txs, ¬tx.Raises) :
    rowsOf extras i txs = [] ↔ ∀ tx ∈ txs, tx.Skipped := by
  induction txs generalizing i with
  | nil => simp [rowsOf]
  | cons tx txs ih =>
    obtain ⟨htx, htxs⟩ := List.forall_mem_cons.mp h
    rw [List.forall_mem_cons, ← @rowOf_eq_none_iff tx extras i htx, ← @ih (i + 1) htxs]
    cases hrow : rowOf extras i tx with
    | none => simp [rowsOf_cons_of_none hrow]
    | some row => simp [rowsOf_cons_of_some hrow]

end

/-! ### The file -/

/-- A file of which nothing is lost: it is rejected for its size, for having no statement, for a
first statement without transactions or with too many; or no transaction of the first statement
raises, and either all of them are skipped, or no other statement has a payment and those of the
first are kept as they are. -/
def LosslessFile (bounds : OfxBounds) (size : ℕ) (statements : List OfxStatement) : Prop :=
  bounds.maxBytes < size ∨
    match statements with
    | [] => True
    | first :: others =>
        first.transactions = [] ∨ bounds.maxRows < first.transactions.length ∨
          (∀ tx ∈ first.transactions, ¬tx.Raises) ∧
            ((∀ tx ∈ first.transactions, tx.Skipped) ∨
              (∀ s ∈ others, ∀ tx ∈ s.transactions, ¬tx.Payment) ∧
                ∀ tx ∈ first.transactions, tx.Payment → tx.Kept)

/-- The parser rejects a file or keeps all its payments, whatever the bounds, the size and the
statements the library reads, if and only if nothing in the file is of the kinds that are lost. -/
theorem parseOfx_keepsPayments_iff (bounds : OfxBounds) (size : ℕ)
    (statements : List OfxStatement) :
    KeepsPayments statements (parseOfx bounds size (.converted statements)) ↔
      LosslessFile bounds size statements := by
  unfold parseOfx LosslessFile
  by_cases hsize : bounds.maxBytes < size
  · rw [bind_of_error (raiseIf_of hsize)]
    exact iff_of_true trivial (.inl hsize)
  rw [bind_of_ok (raiseIf_of_not hsize), or_iff_right hsize,
    bind_of_ok (rfl : ofxStatements bounds (.converted statements) = .ok statements)]
  cases statements with
  | nil => exact iff_of_true trivial trivial
  | cons first others =>
    rw [bind_of_ok (orRaise_eq_ok.mpr List.head?_cons)]
    dsimp only
    by_cases hempty : first.transactions = []
    · rw [bind_of_error (raiseIf_of hempty)]
      exact iff_of_true trivial (.inl hempty)
    by_cases hmany : bounds.maxRows < first.transactions.length
    · rw [bind_of_ok (raiseIf_of_not hempty), bind_of_error (raiseIf_of hmany)]
      exact iff_of_true trivial (.inr (.inl hmany))
    rw [bind_of_ok (raiseIf_of_not hempty), bind_of_ok (raiseIf_of_not hmany), or_iff_right hempty,
      or_iff_right hmany]
    rcases normalizeTransactions_cases (accountExtras first.account) first.transactions 1 with
      ⟨⟨tx, htx, hraises⟩, signal, herror⟩ | ⟨hnone, hok⟩
    · rw [bind_of_error herror]
      exact iff_of_false id fun h => h.1 tx htx hraises
    · rw [bind_of_ok hok, and_iff_right hnone]
      by_cases hrows : rowsOf (accountExtras first.account) 1 first.transactions = []
      · rw [bind_of_error (raiseIf_of hrows)]
        exact iff_of_true trivial (.inl ((rowsOf_eq_nil_iff hnone).mp hrows))
      · rw [bind_of_ok (raiseIf_of_not hrows),
          or_iff_right fun h => hrows ((rowsOf_eq_nil_iff hnone).mpr h)]
        have hiff := forall₂_payments_iff (others.flatMap (·.transactions))
          (accountExtras first.account) first.transactions 1
        refine hiff.trans (and_congr_left' ?_)
        rw [List.forall_mem_flatMap]

/-! ### Sample files -/

/-- A statement of one transaction of an amount. -/
def sampleStatement (amount : Decimal) : OfxStatement where
  transactions :=
    [{ trnamt := some (.decimal amount), name := some "Shop"
       dtposted := some (.date (.of 2026 5 1)) }]

/-- The payment of a second statement is lost, and an amount that is not a number ends the
parser. -/
theorem sampleStatements_lost :
    ¬KeepsPayments [sampleStatement (.finite 10), sampleStatement (.finite 20)]
        (parseOfx {} 1000
          (.converted [sampleStatement (.finite 10), sampleStatement (.finite 20)])) ∧
      ¬KeepsPayments [sampleStatement (.nan false)]
        (parseOfx {} 1000 (.converted [sampleStatement (.nan false)])) := by
  constructor
  · intro h
    have hlength := List.Forall₂.length_eq h
    revert hlength
    decide +kernel
  · have herror : parseOfx {} 1000 (.converted [sampleStatement (.nan false)]) =
        .error (.decimal .invalidOperation) := by
      decide +kernel
    rw [herror]
    exact id

end Pfv
