import Pfv.Ledger.Drift

/-!
# The ledger balance law

In every run without single deletes and reconciliation requests, the stored balance of every
account is its opening balance plus the settled income minus the settled expense on it.

## Main definitions

* `Request.TrustsStatus`: the requests that move balances by the status of each row.

## Main results

* `Request.step_balanced`: each of these requests keeps a ledger balanced.
* `balance_eq_of_run`: the balance law.
-/

namespace Pfv

/-- Every request but the single delete and the reconciliation request. -/
def Request.TrustsStatus : Request → Prop
  | .delete .. | .reconcile .. => False
  | _ => True

namespace Db

variable {db : Db}

/-- Removing rows of a ledger balanced for settled amounts keeps it so. -/
theorem Balanced.remove_settled (hbal : db.Balanced Transaction.settledAmount)
    (hwf : db.WellFormed) {rows : List Transaction} (hnodup : (rows.map (·.id)).Nodup)
    (hmem : ∀ t ∈ rows, db.transactions.get? t.id = some t) :
    (db.remove rows).Balanced Transaction.settledAmount :=
  hbal.remove_entry hwf (entryWeight_settledAmount 0) hnodup hmem fun _ _ => rfl

theorem Balanced.revise_settled (hbal : db.Balanced Transaction.settledAmount)
    (hwf : db.WellFormed) {t t' : Transaction} (ht : db.transactions.get? t.id = some t)
    (ht' : db.RowOk t') (hid : t'.id = t.id) :
    (db.revise t t').Balanced Transaction.settledAmount :=
  hbal.revise hwf ht ht' hid fun _ => by simp

end Db

namespace Request

variable {db db' : Db} {r : Request}

/-- Removing the pending rows of a template between steps that add to the ledger. -/
theorem pendingRemoved_balanced {w : Transaction → ℤ} {db₁ : Db} {org id : ℕ} {today : Date}
    (hwf : db.WellFormed) (hw : EntryWeight w db.transactions.next) (hbal : db.Balanced w)
    (hpending : ∀ t : Transaction, t.status = .pending → w t = 0)
    (hgrow : db.GrowsMany (fun _ => True) db₁) (hrows : db₁.transactions = db.transactions)
    (hgrow' : (db₁.remove (pendingOfTemplate db org id today)).GrowsMany (fun _ => True) db') :
    db'.Balanced w := by
  have hwf₁ := hgrow.wellFormed hwf
  have hw₁ : EntryWeight w db₁.transactions.next := hw.mono hgrow.next_le
  refine hgrow'.balanced (hwf₁.remove _) ?_ ?_
  · rwa [Db.remove_transactions, Db.next_deleteTransactions]
  refine (hgrow.balanced hwf hw hbal).remove_entry hwf₁ hw₁ (pendingOfTemplate_nodup db _ _ _)
    (fun t ht => ?_) fun t ht => ?_
  · rw [hrows]
    exact (mem_pendingOfTemplate.mp ht).1
  · have hp := (mem_pendingOfTemplate.mp ht).2.2.2.1
    rw [hpending t hp, Transaction.settledAmount_of_pending hp]

/-- A request that moves balances by the status of each row keeps a ledger balanced for settled
amounts. -/
theorem step_balanced (hwf : db.WellFormed) (hbal : db.Balanced Transaction.settledAmount)
    (htrusts : r.TrustsStatus) (h : step db r = .ok db') :
    db'.Balanced Transaction.settledAmount := by
  by_cases hadds : r.Adds
  · exact (step_grows hwf hadds h).balanced hwf (entryWeight_settledAmount _) hbal
  cases r with
  | update org id body today =>
    obtain ⟨edited, h⟩ := map_fst_eq_ok.mp h
    obtain ⟨ids, h⟩ := updateTransaction_ok h
    obtain ⟨tx, htx, -, rfl, hacc, hcase⟩ := updateTransactionLocked_ok h
    have hget := Db.transaction?_self htx
    have hedited : db.RowOk (editTransaction tx body today) :=
      editTransaction_rowOk (hwf.row hget) ((Db.transaction?_eq_some.mp htx).2 ▸ hacc)
    have hrevised := hbal.revise_settled hwf hget hedited rfl
    rcases hcase with ⟨-, rfl⟩ | ⟨p, hpair, ⟨-, -, rfl⟩ | ⟨amount, -, rfl⟩⟩
    · exact hrevised
    · exact hrevised
    · -- The partner is another row, so the first revision left it as it was.
      have hp := Db.transaction?_self hpair.partner_mem
      have hp' : (db.revise tx (editTransaction tx body today)).transactions.get? p.id =
          some p := by
        rw [Db.get?_revise]
        exact (if_neg hpair.id_ne).trans hp
      exact hrevised.revise_settled (hwf.revise hedited) hp'
        ((mirrored_rowOk (hwf.row hp) amount).mono (Db.keepsAccounts_revise db _ _) le_rfl) rfl
  | bulkDelete org ids =>
    obtain ⟨_, h⟩ := map_fst_eq_ok.mp h
    rcases bulkDeleteTransactions_ok h with rfl | rfl
    · exact hbal
    · exact hbal.remove_settled hwf (Db.bulkRows_nodup db _ _) fun t ht => (Db.mem_bulkRows.mp ht).1
  | unpair org id ec ic =>
    obtain ⟨_, _, e, i, -, -, he, hi, -, -, het, hit, -, rfl⟩ := unpairTransactions_ok h
    refine hbal.unlink (entryWeight_settledAmount 0) he hi ?_ ec ic
    intro hid
    rw [Table.get?_inj he hi hid, hit] at het
    exact absurd het (by decide)
  | stopRecurring org id today =>
    obtain ⟨db₁, hgrow, hrows, hgrow'⟩ := stopRecurring_removes (P := fun _ => True) hwf h
    exact pendingRemoved_balanced hwf (entryWeight_settledAmount _) hbal
      (fun _ => Transaction.settledAmount_of_pending) hgrow hrows hgrow'
  | deleteRecurring org id today =>
    obtain ⟨db₁, hgrow, hrows, hgrow'⟩ := deleteRecurring_removes (P := fun _ => True) hwf h
    exact pendingRemoved_balanced hwf (entryWeight_settledAmount _) hbal
      (fun _ => Transaction.settledAmount_of_pending) hgrow hrows hgrow'
  | delete | reconcile => exact htrusts.elim
  | _ => exact absurd trivial hadds

end Request

theorem Db.Seeded.balanced {db : Db} (h : db.Seeded) (w : Transaction → ℤ) : db.Balanced w := by
  intro k
  simp [Db.drift, Table.sumOver, Table.get?, h.accounts, h.transactions]

/-! ### The law -/

/-- Ledger balance law: after any run of requests without single deletes and reconciliation
requests, the balance of every account is its opening balance plus its settled income minus its
settled expense. -/
theorem balance_eq_of_run {db : Db} (hseeded : db.Seeded) {rs : List Request}
    (htrusts : ∀ r ∈ rs, r.TrustsStatus) {a : ℕ} {acct : Account}
    (hacct : (serveAll Request.step db rs).accounts.get? a = some acct) :
    acct.balance = acct.openingBalance +
      (serveAll Request.step db rs).settledSum a .income -
      (serveAll Request.step db rs).settledSum a .expense := by
  have hreach : (serveAll Request.step db rs).ReachableBy Request.TrustsStatus :=
    ⟨db, rs, hseeded, htrusts, rfl⟩
  refine Db.Balanced.balance_eq ?_ hacct
  exact hreach.induct (fun db h => h.balanced _) fun db r db' hwf hbal htr h =>
    Request.step_balanced hwf hbal htr h

/-- An account, an import of two expenses and one income, and a pending expense. -/
def sampleLedgerRun : List Request :=
  [sampleAccount "Checking", sampleImport 1 [.expense, .expense, .income],
    sampleCreate 1 .expense .pending]

/-- The law on a sample run. -/
theorem balance_eq_of_sampleLedgerRun :
    (-1000 : ℤ) = 0 + (serveAll Request.step sampleDb sampleLedgerRun).settledSum 1 .income -
      (serveAll Request.step sampleDb sampleLedgerRun).settledSum 1 .expense := by
  have htrusts : ∀ r ∈ sampleLedgerRun, r.TrustsStatus := by
    simp [sampleLedgerRun, sampleAccount, sampleImport, sampleCreate, Request.TrustsStatus]
  have hacct : (serveAll Request.step sampleDb sampleLedgerRun).accounts.get? 1 =
      some { id := 1, orgId := 1, accountTypeId := 1, name := "Checking", balance := -1000
             openingBalanceDate := sampleDate } := by
    decide +kernel
  exact balance_eq_of_run sampleDb_seeded htrusts hacct

end Pfv
