import Pfv.Ledger.Effects
import Pfv.Services.Recurring

/-!
# What a successful deletion did

The single delete, the bulk delete and the removal of the pending rows of a template, as writes of
the ledger. The two delete paths take a pair off the balances in different ways: the bulk delete
looks at the status of each row, the single delete at the status of the requested row alone.

## Main definitions

* `Db.deleteCascade`: what the single delete does to a row and its linked row.
* `Db.bulkRows`: the rows the bulk delete removes among the locked ones.

## Main results

* `deleteTransactionLocked_ok`, `bulkDeleteLocked_ok`, `stopRecurring_ok`, `deleteRecurring_ok`.
* `Db.deleteCascade_eq_remove`: on legs of equal status the single delete removes both legs as the
  bulk delete does.
-/

namespace Pfv

theorem Transaction.settledAmount_of_pending {t : Transaction} (h : t.status = .pending) :
    t.settledAmount = 0 := by
  simp [Transaction.settledAmount, h]

namespace Db

/-! ### Deleting by id -/

theorem deleteTransactions_congr (db : Db) {ids ids' : List ℕ} (h : ∀ i, i ∈ ids ↔ i ∈ ids') :
    db.deleteTransactions ids = db.deleteTransactions ids' := by
  have hunlink : unlinkFrom ids = unlinkFrom ids' := by
    funext t
    simp only [unlinkFrom, h]
  simp only [deleteTransactions, hunlink, h]

/-- Rows that are not settled leave the balances as they are. -/
theorem revertAll_of_settledAmount_eq_zero (db : Db) {rows : List Transaction}
    (h : ∀ t ∈ rows, t.settledAmount = 0) : db.revertAll rows = db := by
  unfold revertAll
  induction rows generalizing db with
  | nil => rfl
  | cons t rows ih =>
    rw [List.foldl_cons, h t List.mem_cons_self, neg_zero, credit_zero]
    exact ih db fun u hu => h u (List.mem_cons_of_mem t hu)

theorem remove_of_settledAmount_eq_zero (db : Db) {rows : List Transaction}
    (h : ∀ t ∈ rows, t.settledAmount = 0) :
    db.remove rows = db.deleteTransactions (rows.map (·.id)) := by
  rw [remove, revertAll_of_settledAmount_eq_zero db h]

theorem remove_transactions (db : Db) (rows : List Transaction) :
    (db.remove rows).transactions = (db.deleteTransactions (rows.map (·.id))).transactions := by
  rw [remove, revertAll_eq]
  rfl

/-! ### The single delete -/

/-- The single delete of a row: a settled row is taken off the balances together with its linked
row, whatever the status of the latter. -/
def deleteCascade (db : Db) (tx : Transaction) : Option Transaction → Db
  | none => db.remove [tx]
  | some p =>
      (if tx.status = .settled then
        (db.credit tx.accountId (-tx.type.signed tx.amount)).credit p.accountId
          (-p.type.signed p.amount)
      else db).deleteTransactions [p.id, tx.id]

theorem deleteCascade_eq_remove (db : Db) {tx p : Transaction} (h : p.status = tx.status) :
    db.deleteCascade tx (some p) = db.remove [tx, p] := by
  have hids : ∀ i, i ∈ [p.id, tx.id] ↔ i ∈ [tx, p].map (·.id) := by
    intro i
    simp [or_comm]
  rw [deleteCascade, deleteTransactions_congr _ hids, remove]
  congr 1
  split_ifs with hsettled
  · simp [revertAll, Transaction.settledAmount, h, hsettled]
  · exact (revertAll_of_settledAmount_eq_zero db (by
      simp [Transaction.settledAmount, h, hsettled])).symm

theorem deleteCascade_transactions (db : Db) (tx : Transaction) (linkedTx : Option Transaction) :
    (db.deleteCascade tx linkedTx).transactions =
      (db.deleteTransactions (tx.id :: linkedTx.toList.map (·.id))).transactions := by
  cases linkedTx with
  | none => rfl
  | some p =>
    have hids : ∀ i, i ∈ [p.id, tx.id] ↔ i ∈ tx.id :: [p.id] := fun i => by simp [or_comm]
    rw [deleteCascade, deleteTransactions_congr _ hids]
    split_ifs <;> rfl

theorem keepsAccounts_deleteCascade (db : Db) (tx : Transaction)
    (linkedTx : Option Transaction) : db.KeepsAccounts (db.deleteCascade tx linkedTx) := by
  cases linkedTx with
  | none => exact keepsAccounts_remove db _
  | some p =>
    unfold deleteCascade
    split_ifs
    · exact ((keepsAccounts_credit db _ _).trans (keepsAccounts_credit _ _ _)).trans (.of_eq rfl)
    · exact .of_eq rfl

/-- The rows a bulk delete removes among the rows with the given ids. -/
def bulkRows (db : Db) (org : ℕ) (ids : List ℕ) : List Transaction :=
  (db.lockRows org ids).filter (!·.isManualAdjustment)

theorem mem_bulkRows {db : Db} {org : ℕ} {ids : List ℕ} {t : Transaction} :
    t ∈ db.bulkRows org ids ↔ db.transactions.get? t.id = some t ∧ t.id ∈ ids ∧ t.orgId = org ∧
      t.isManualAdjustment = false := by
  simp [bulkRows, mem_lockRows, and_assoc]

theorem bulkRows_nodup (db : Db) (org : ℕ) (ids : List ℕ) :
    ((db.bulkRows org ids).map (·.id)).Nodup :=
  ((List.filter_sublist.trans List.filter_sublist).map _).nodup db.transactions.nodup

end Db

/-- A successful delete found the row, not a manual adjustment, and removed it together with its
linked row when that row is locked. -/
theorem deleteTransactionLocked_ok {db db' : Db} {org id : ℕ} {ids : List ℕ}
    (h : deleteTransactionLocked db org id ids = .ok db') :
    ∃ tx, db.transaction? id org = some tx ∧ tx.isManualAdjustment = false ∧
      db' = db.deleteCascade tx (tx.linkedTransactionId.bind (rowsGet (db.lockRows org ids))) := by
  unfold deleteTransactionLocked at h
  simp only [↓unit_bind_eq_ok, bind_eq_ok, orRaise_eq_ok, raiseIf_eq_ok, pure_eq_ok,
    Bool.not_eq_true, Db.rowsGet_lockRows] at h
  obtain ⟨tx, ⟨htx, -⟩, hmanual, db₁, hrevert, rfl⟩ := h
  refine ⟨tx, htx, hmanual, ?_⟩
  cases hlinked : tx.linkedTransactionId.bind (rowsGet (db.lockRows org ids)) with
  | none =>
    rw [hlinked] at hrevert
    unfold revertDeleted at hrevert
    split_ifs at hrevert with hsettled
    · simp only [↓unit_bind_eq_ok, revertBalance_eq_ok] at hrevert
      obtain ⟨-, -, rfl⟩ := hrevert
      simp [Db.deleteCascade, Db.remove, Db.revertAll, Transaction.settledAmount, hsettled]
    · rw [pure_eq_ok] at hrevert
      rw [Db.deleteCascade, Db.remove_of_settledAmount_eq_zero db
        (by simp [Transaction.settledAmount, hsettled]), hrevert]
      rfl
  | some p =>
    rw [hlinked] at hrevert
    unfold revertDeleted at hrevert
    split_ifs at hrevert with hsettled
    · simp only [↓unit_bind_eq_ok, bind_eq_ok, revertBalance_eq_ok] at hrevert
      obtain ⟨-, _, ⟨-, rfl⟩, -, rfl⟩ := hrevert
      simp [Db.deleteCascade, hsettled]
    · rw [pure_eq_ok] at hrevert
      simp [Db.deleteCascade, hsettled, hrevert]

/-- The partner the single delete takes along is the row of the organisation the row links to. -/
theorem deleteTransaction_ok {db db' : Db} {org id : ℕ}
    (h : deleteTransaction db org id = .ok db') :
    ∃ tx, db.transaction? id org = some tx ∧ tx.isManualAdjustment = false ∧
      db' = db.deleteCascade tx (tx.linkedTransactionId.bind fun l => db.transaction? l org) := by
  unfold deleteTransaction pairPreview at h
  simp only [bind_eq_ok, orRaise_eq_ok, pure_eq_ok] at h
  obtain ⟨ids, ⟨preview, hpreview, rfl⟩, hdelete⟩ := h
  obtain ⟨tx, htx, hmanual, rfl⟩ := deleteTransactionLocked_ok hdelete
  refine ⟨tx, htx, hmanual, ?_⟩
  rw [hpreview, Option.some_inj] at htx
  subst htx
  congr 1
  cases hlink : preview.linkedTransactionId with
  | none => rfl
  | some l =>
    rw [Option.bind_some, Option.bind_some]
    ext p
    simp [Db.rowsGet_lockRows]

theorem foldlM_revertSettled_ok {rows : List Transaction} {db db' : Db}
    (h : rows.foldlM revertSettled db = .ok db') : db' = db.revertAll rows := by
  induction rows generalizing db with
  | nil => exact (pure_eq_ok.mp h).symm
  | cons t rows ih =>
    rw [List.foldlM_cons, bind_eq_ok] at h
    obtain ⟨db₁, hrevert, hrest⟩ := h
    rw [ih hrest, (revertSettled_eq_ok.mp hrevert).2]
    rfl

theorem bulkDeleteLocked_ok {db db' : Db} {org : ℕ} {requested ids : List ℕ} {n : ℕ}
    {skipped : List ℕ} (h : bulkDeleteLocked db org requested ids = .ok (db', n, skipped)) :
    db' = db.remove (db.bulkRows org ids) := by
  unfold bulkDeleteLocked at h
  simp only [↓unit_bind_eq_ok, bind_eq_ok, pure_eq_ok, Prod.mk.injEq] at h
  obtain ⟨-, db₁, hrevert, rfl, -⟩ := h
  rw [foldlM_revertSettled_ok hrevert]
  rfl

theorem bulkDeleteTransactions_ok {db db' : Db} {org : ℕ} {ids : List ℕ} {n : ℕ}
    {skipped : List ℕ} (h : bulkDeleteTransactions db org ids = .ok (db', n, skipped)) :
    db' = db ∨ db' = db.remove (db.bulkRows org (bulkDeletePreview db org ids.eraseDups)) := by
  unfold bulkDeleteTransactions at h
  simp only at h
  split_ifs at h with hnone
  · rw [pure_eq_ok, Prod.mk.injEq] at h
    exact .inl h.1.symm
  · exact .inr (bulkDeleteLocked_ok h)

/-! ### The rows of a template -/

theorem mem_pendingOfTemplate {db : Db} {org recurringId : ℕ} {today : Date} {t : Transaction} :
    t ∈ pendingOfTemplate db org recurringId today ↔ db.transactions.get? t.id = some t ∧
      t.recurringId = some recurringId ∧ t.orgId = org ∧ t.status = .pending ∧ today ≤ t.date := by
  simp [pendingOfTemplate, Table.mem_rows_iff]

theorem pendingOfTemplate_nodup (db : Db) (org recurringId : ℕ) (today : Date) :
    ((pendingOfTemplate db org recurringId today).map (·.id)).Nodup :=
  (List.filter_sublist.map _).nodup db.transactions.nodup

/-- The removed rows are pending, so they count for nothing. -/
theorem removePendingTransactions_eq (db : Db) (org recurringId : ℕ) (today : Date) :
    removePendingTransactions db org recurringId today =
      db.remove (pendingOfTemplate db org recurringId today) := by
  rw [removePendingTransactions, Db.remove_of_settledAmount_eq_zero]
  intro t ht
  exact Transaction.settledAmount_of_pending (mem_pendingOfTemplate.mp ht).2.2.2.1

theorem stopRecurring_ok {db db' : Db} {org id : ℕ} {today : Date}
    (h : stopRecurring db org id today = .ok db') :
    ∃ r, db.recurring? id org = some r ∧
      db' = Db.remove { db with recurring := db.recurring.put { r with isActive := false } }
        (pendingOfTemplate db org id today) := by
  unfold stopRecurring at h
  simp only [bind_eq_ok, orRaise_eq_ok, pure_eq_ok] at h
  obtain ⟨r, hr, rfl⟩ := h
  exact ⟨r, hr, removePendingTransactions_eq _ org id today⟩

theorem deleteRecurring_ok {db db' : Db} {org id : ℕ} {today : Date}
    (h : deleteRecurring db org id today = .ok db') :
    ∃ hf, db' =
      { db.remove (pendingOfTemplate db org id today) with
        recurring := db.recurring.filter (·.id ≠ id)
        transactions := (db.remove (pendingOfTemplate db org id today)).transactions.mapRows
          (Transaction.detachFrom id) hf } := by
  unfold deleteRecurring at h
  simp only [bind_eq_ok, orRaise_eq_ok, pure_eq_ok, removePendingTransactions_eq] at h
  obtain ⟨r, -, rfl⟩ := h
  have hrec : (db.remove (pendingOfTemplate db org id today)).recurring = db.recurring := by
    rw [Db.remove, Db.deleteTransactions_recurring, Db.revertAll_eq]
  exact ⟨_, by rw [hrec]⟩

end Pfv
