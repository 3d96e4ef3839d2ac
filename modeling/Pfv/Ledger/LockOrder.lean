import Pfv.Services.RowLocks
import Pfv.Ledger.Requests

/-!
# Requests that wait in a circle

An operation on one row or pair takes its locks in the order of the rule, whatever it reads, and so
does an import of plain rows. An import that pairs a row with an existing one locks that row after
the account of the rows before it, and a generation locks the accounts of its templates in the order
of the templates. Where none of these comes out of order, no requests ever wait for each other in a
circle.

## Main definitions

* `LedgerRequest.Plain`: a request whose locks are in order whatever it reads.

## Main results

* `LedgerRequest.program_ascends`: the locks of a plain request are in order.
* `LedgerRequest.no_circular_wait`: no requests wait in a circle.
* `LedgerRequest.circular_wait_of_sampleLockTurns`: a generation and a transfer that do.
-/

namespace Pfv

open Locker

variable {org : ℕ} {next failed : LedgerLocker} {own : List LockRow} {ids : List ℕ}

/-! ### Locking rows in order -/

namespace LockRow

theorem transaction_le_transaction {t u : ℕ} (h : t ≤ u) : transaction t ≤ transaction u := by
  rcases h.lt_or_eq with h | rfl
  · exact (transaction_lt_transaction h).le
  · exact le_rfl

theorem account_le_account {a b : ℕ} (h : a ≤ b) : account a ≤ account b := by
  rcases h.lt_or_eq with h | rfl
  · exact (account_lt_account h).le
  · exact le_rfl

end LockRow

open LockRow

theorem pairwise_sortIds (ids : List ℕ) : (sortIds ids).Pairwise (· ≤ ·) :=
  List.pairwise_insertionSort (· ≤ ·) ids

/-- Locking one more row that is not below those that are held. -/
theorem ascends_lock {row : LockRow} (hrow : ∀ held ∈ own, held ≤ row)
    (hnext : ∀ own', own' = own ∨ own' = row :: own → next.Ascends own') :
    Ascends (.lock row next) own := by
  unfold Ascends
  split_ifs with hown
  · exact hnext own (.inl rfl)
  · exact ⟨fun held hheld => lt_of_le_of_ne (hrow held hheld) fun h => hown (h ▸ hheld),
      hnext (row :: own) (.inr rfl)⟩

/-- Accounts in order, none below what is held, and then no more locks. -/
theorem ascends_lockAccountRows (hnext : ∀ own, next.Ascends own)
    (hfailed : ∀ own, failed.Ascends own) (hids : ids.Pairwise (· ≤ ·))
    (hown : ∀ held ∈ own, ∀ id ∈ ids, held ≤ account id) :
    (lockAccountRows org next failed ids).Ascends own := by
  induction ids generalizing own with
  | nil => exact hnext own
  | cons id ids ih =>
    rw [List.pairwise_cons] at hids
    refine ascends_read fun db => ?_
    split_ifs
    · refine ascends_lock (fun held hheld => hown held hheld id (List.mem_cons_self ..)) ?_
      rintro own' (rfl | rfl)
      · exact ih hids.2 fun held hheld id' hid' =>
          hown held hheld id' (List.mem_cons_of_mem _ hid')
      · refine ih hids.2 fun held hheld id' hid' => ?_
        rcases List.mem_cons.mp hheld with rfl | hheld
        · exact account_le_account (hids.1 id' hid')
        · exact hown held hheld id' (List.mem_cons_of_mem _ hid')
    · exact hfailed own

/-- Transactions in order, none below what is held, and then what ascends from transactions. -/
theorem ascends_lockTransactionRows
    (hnext : ∀ own, (∀ held ∈ own, ∃ t, held = transaction t) → next.Ascends own)
    (hids : ids.Pairwise (· ≤ ·)) (hkind : ∀ held ∈ own, ∃ t, held = transaction t)
    (hown : ∀ held ∈ own, ∀ id ∈ ids, held ≤ transaction id) :
    (lockTransactionRows org next ids).Ascends own := by
  induction ids generalizing own with
  | nil => exact hnext own hkind
  | cons id ids ih =>
    rw [List.pairwise_cons] at hids
    have hrest : ∀ held ∈ own, ∀ id' ∈ ids, held ≤ transaction id' :=
      fun held hheld id' hid' => hown held hheld id' (List.mem_cons_of_mem _ hid')
    refine ascends_read fun db => ?_
    split_ifs
    · refine ascends_lock (fun held hheld => hown held hheld id (List.mem_cons_self ..)) ?_
      rintro own' (rfl | rfl)
      · exact ih hids.2 hkind hrest
      · refine ih hids.2 (fun held hheld => ?_) fun held hheld id' hid' => ?_
        · rcases List.mem_cons.mp hheld with rfl | hheld
          · exact ⟨id, rfl⟩
          · exact hkind held hheld
        · rcases List.mem_cons.mp hheld with rfl | hheld
          · exact transaction_le_transaction (hids.1 id' hid')
          · exact hrest held hheld id' hid'
    · exact ih hids.2 hkind hrest

/-- After transactions an operation locks its accounts in order and commits. -/
theorem ascends_lockAndCommit (op : Db → Except ServiceError Db)
    (accounts : Except ServiceError (List ℕ)) (hkind : ∀ held ∈ own, ∃ t, held = transaction t) :
    (lockAndCommit org op accounts).Ascends own := by
  cases accounts with
  | error e => trivial
  | ok ids =>
    refine ascends_lockAccountRows (fun _ => trivial) (fun _ => trivial) (pairwise_sortIds ids)
      fun held hheld id _ => ?_
    obtain ⟨t, rfl⟩ := hkind held hheld
    exact (transaction_lt_account t id).le

/-- Locking nothing yet, an operation locks its transactions in order. -/
theorem ascends_of_transactions
    (hnext : ∀ own, (∀ held ∈ own, ∃ t, held = transaction t) → next.Ascends own)
    (hids : ids.Pairwise (· ≤ ·)) : (lockTransactionRows org next ids).Ascends [] :=
  ascends_lockTransactionRows hnext hids (by simp) (by simp)

/-! ### Imports of plain rows -/

/-- The leg of a row locks the account of the import, if any. -/
theorem importLegAccounts_eq {db : Db} {body : ImportConfirmRequest} {row : ImportConfirmRow}
    (h : importLegAccounts db org body row = .ok ids) : ∀ id ∈ ids, id = body.accountId := by
  unfold importLegAccounts createAccounts at h
  simp only [bind_eq_ok, pure_eq_ok] at h
  obtain ⟨txBody, hbody, -, -, -, -, rfl⟩ := h
  unfold ImportConfirmRow.toCreate at hbody
  simp only [bind_eq_ok, pure_eq_ok] at hbody
  obtain ⟨-, -, -, -, rfl⟩ := hbody
  intro id hid
  simpa using hid

/-- Locking an account once more. -/
theorem ascends_lockAccountRows_same {a : ℕ} (hids : ∀ id ∈ ids, id = a)
    (hnext : ∀ own, (∀ held ∈ own, held = account a) → next.Ascends own)
    (hown : ∀ held ∈ own, held = account a) :
    (lockAccountRows org next next ids).Ascends own := by
  induction ids generalizing own with
  | nil => exact hnext own hown
  | cons id ids ih =>
    obtain rfl := hids id (List.mem_cons_self ..)
    have hrest : ∀ id' ∈ ids, id' = id := fun id' hid' => hids id' (List.mem_cons_of_mem _ hid')
    refine ascends_read fun db => ?_
    split_ifs
    · refine ascends_lock (fun held hheld => (hown held hheld).le) ?_
      rintro own' (rfl | rfl)
      · exact ih hrest hown
      · refine ih hrest fun held hheld => ?_
        rcases List.mem_cons.mp hheld with rfl | hheld
        · rfl
        · exact hown held hheld
    · exact hnext own hown

/-- A row of an import that locks at most the account of the import. -/
def ImportConfirmRow.Plain (row : ImportConfirmRow) : Prop :=
  row.skip = true ∨ row.action = .create ∨ row.action = .dropAsDuplicate

instance : DecidablePred ImportConfirmRow.Plain := fun row =>
  inferInstanceAs
    (Decidable (row.skip = true ∨ row.action = .create ∨ row.action = .dropAsDuplicate))

theorem ascends_lockImportRows {body : ImportConfirmRequest} {currency : String}
    (hnext : ∀ own, next.Ascends own) {rows : List ImportConfirmRow}
    (hrows : ∀ row ∈ rows, row.Plain) (s : ImportState)
    (hown : ∀ held ∈ own, held = account body.accountId) :
    (lockImportRows org body currency next s rows).Ascends own := by
  induction rows generalizing s own with
  | nil => exact hnext own
  | cons row rows ih =>
    have hrest : ∀ own, (∀ held ∈ own, held = account body.accountId) →
        (lockImportRows org body currency next (importStep org body currency s row) rows).Ascends
          own :=
      fun own hown => ih (fun row' hrow' => hrows row' (List.mem_cons_of_mem _ hrow')) _ hown
    unfold lockImportRows lockImportRow
    by_cases hskip : row.skip = true
    · rw [if_pos hskip]
      exact hrest own hown
    rw [if_neg hskip]
    rcases (hrows row (List.mem_cons_self ..)).resolve_left hskip with haction | haction
    · rw [haction]
      dsimp only
      split
      · next ids hids =>
        exact ascends_lockAccountRows_same (importLegAccounts_eq hids) hrest hown
      · exact hrest own hown
    · rw [haction]
      exact hrest own hown

/-! ### Requests -/

namespace LedgerRequest

/-- An operation on one row or pair, or an import of plain rows. -/
def Plain : LedgerRequest → Prop
  | .executeImport body _ => ∀ row ∈ body.rows, row.Plain
  | .generateDueTransactions _ => False
  | _ => True

instance : DecidablePred Plain
  | .executeImport body _ => inferInstanceAs (Decidable (∀ row ∈ body.rows, row.Plain))
  | .generateDueTransactions _ => .isFalse id
  | .createTransaction .. | .createTransfer _ | .updateTransaction .. | .deleteTransaction _
  | .bulkDeleteTransactions _ | .pairExistingTransactions .. | .convertAndCreateLeg ..
  | .unpairTransactions .. => .isTrue trivial

/-- The locks of a plain request are in order, whatever it reads. -/
theorem program_ascends (org : ℕ) (r : LedgerRequest) (hr : r.Plain) :
    (r.program org).Ascends [] := by
  have hcommit : ∀ (op : Db → Except ServiceError Db) (own : List LockRow),
      (commitResult op).Ascends own := fun _ _ => trivial
  cases r with
  | createTransaction body isImported =>
    exact ascends_read fun db => ascends_lockAndCommit _ _ (by simp)
  | createTransfer body => exact ascends_read fun db => ascends_lockAndCommit _ _ (by simp)
  | updateTransaction id body today =>
    refine ascends_read fun db => ?_
    split
    · exact ascends_abort _
    · exact ascends_of_transactions
        (fun own hown => ascends_read fun db => ascends_lockAndCommit _ _ hown)
        (pairwise_sortIds _)
  | deleteTransaction id =>
    refine ascends_read fun db => ?_
    split
    · exact ascends_abort _
    · exact ascends_of_transactions
        (fun own hown => ascends_read fun db => ascends_lockAndCommit _ _ hown)
        (pairwise_sortIds _)
  | bulkDeleteTransactions ids =>
    refine ascends_read fun db => ?_
    dsimp only
    split_ifs
    · exact ascends_abort _
    · exact ascends_of_transactions
        (fun own hown => ascends_read fun db => ascends_lockAndCommit _ _ hown)
        (pairwise_sortIds _)
  | pairExistingTransactions expenseTxId incomeTxId recategorize transferCategoryId =>
    simp only [program]
    split_ifs
    · exact ascends_abort _
    · exact ascends_of_transactions (fun own _ => hcommit _ own) (pairwise_sortIds _)
  | convertAndCreateLeg sourceTxId destinationAccountId recategorize transferCategoryId =>
    refine ascends_read fun db => ?_
    split
    · exact ascends_abort _
    · exact ascends_of_transactions
        (fun own hown => ascends_read fun db => ascends_lockAndCommit _ _ hown)
        (List.pairwise_singleton _ _)
  | unpairTransactions id expenseFallbackCategoryId incomeFallbackCategoryId =>
    refine ascends_read fun db => ?_
    split
    · exact ascends_abort _
    · exact ascends_of_transactions (fun own _ => hcommit _ own) (pairwise_sortIds _)
  | executeImport body userId =>
    refine ascends_read fun db => ?_
    split
    · exact ascends_abort _
    · exact ascends_lockImportRows (hcommit _) hr _ (by simp)
  | generateDueTransactions today => exact hr.elim

/-- Before its first read a request locks nothing. -/
theorem program_inOrder (org : ℕ) (r : LedgerRequest) : (r.program org).InOrder [] := by
  cases r with
  | pairExistingTransactions expenseTxId incomeTxId recategorize transferCategoryId =>
    exact (program_ascends org (.pairExistingTransactions expenseTxId incomeTxId recategorize
      transferCategoryId) trivial).inOrder
  | _ => trivial

/-- In every run in which an import with paired rows and a generation lock, after each of their
reads, only what comes after the rows that they hold, no requests ever wait for each other in a
circle. -/
theorem no_circular_wait (org : ℕ) (s : Locked Db LockRow) (ts : List (Turn LedgerRequest))
    (hts : (Locker.sessions (program org)).Respects
      (fun s p => ¬p.request.Plain → ReadsInOrder s.state p) ⟨s, []⟩ ts) (i : ℕ) :
    ¬Relation.TransGen
      (WaitsFor ((Locker.sessions (program org)).interleave ⟨s, []⟩ ts).live) i i :=
  Locker.no_cycle_of_inOrder Plain (program_inOrder org) (program_ascends org) s ts hts i

/-! ### A generation and a transfer -/

theorem sampleTemplate_nonneg : (0 : ℤ) ≤ 1000 := by decide

/-- A template of 10.00 a month on an account that settles its rows. -/
def sampleTemplate (account : ℕ) : Request :=
  .createRecurring 1
    { accountId := account, categoryId := 1, description := "Rent", amount := 1000, type := .expense
      frequency := .monthly, nextDueDate := sampleDate, autoSettle := true
      amount_nonneg := sampleTemplate_nonneg }

/-- Two accounts and templates on accounts. -/
def sampleLockDb (accounts : List ℕ) : Db :=
  serveAll Request.step sampleDb
    ([sampleAccount "Checking", sampleAccount "Savings"] ++ accounts.map sampleTemplate)

/-- A generation has locked the account of its first template; then a transfer from the first
account to the second is about to lock the second, or waits for the first. -/
def sampleLockTurns : List (Turn LedgerRequest) :=
  .start (.generateDueTransactions sampleDate) :: List.replicate 3 (.advance 0) ++
    .start (.createTransfer sampleTransferBody) :: List.replicate 4 (.advance 1) ++ [.advance 0]

theorem no_circular_wait_of_sampleLockTurns :
    ¬Relation.TransGen (WaitsFor ((Locker.sessions (program 1)).interleave
      ⟨⟨sampleLockDb [1, 2], []⟩, []⟩ sampleLockTurns).live) 0 0 :=
  no_circular_wait 1 ⟨sampleLockDb [1, 2], []⟩ sampleLockTurns (by decide) 0

/-- The templates are on the second account and then on the first: the generation waits for the
first account and the transfer for the second. -/
theorem circular_wait_of_sampleLockTurns :
    let live := ((Locker.sessions (program 1)).interleave ⟨⟨sampleLockDb [2, 1], []⟩, []⟩
      sampleLockTurns).live
    Relation.TransGen (WaitsFor live) 0 0 := by
  intro live
  have htransfer : WaitsFor live 0 1 := by decide
  have hgenerate : WaitsFor live 1 0 := by decide
  exact .tail (.single htransfer) hgenerate

end LedgerRequest

end Pfv
