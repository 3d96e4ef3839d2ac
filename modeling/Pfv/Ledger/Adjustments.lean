import Pfv.Ledger.Links

/-!
# Manual adjustments

The row of a manual balance adjustment is an audit record: no operation may change or remove it.
Every entry point refuses or skips the row itself. The single delete looks at the requested row
alone and takes the row it is linked to along, so an imported row that was matched to an adjustment
takes the adjustment with it.

## Main definitions

* `Db.HasAdjustment db i t`: the adjustment `t` is stored under the key `i`.
* `SparesAdjustments`: no single delete of a row that is linked to an adjustment.

## Main results

* `Request.step_hasAdjustment`: every request that spares adjustments keeps them.
* `adjustment_kept_of_run`: an adjustment outlives every such run.
-/

namespace Pfv

/-- A version of the row of an adjustment: it has the amount, type, account, status and date of the
row, it is a manual adjustment, settled and not linked. -/
structure Transaction.AdjustmentOf (t t' : Transaction) : Prop where
  amount_eq : t'.amount = t.amount
  type_eq : t'.type = t.type
  account_eq : t'.accountId = t.accountId
  date_eq : t'.date = t.date
  status_eq : t'.status = t.status
  settled : t'.status = .settled
  manual : t'.isManualAdjustment = true
  unlinked : t'.linkedTransactionId = none

/-- The adjustment `t` is stored under the key `i`. -/
def Db.HasAdjustment (db : Db) (i : ℕ) (t : Transaction) : Prop :=
  ∃ t', db.transactions.get? i = some t' ∧ t.AdjustmentOf t'

/-- The request is not a single delete of a row that is linked to an adjustment. -/
def SparesAdjustments (db : Db) : Request → Prop
  | .delete org id => ∀ tx p, db.transaction? id org = some tx →
      tx.linkedTransactionId = some p.id → db.transactions.get? p.id = some p →
      p.isManualAdjustment = false
  | _ => True

namespace Db

variable {db db' : Db} {i : ℕ} {t : Transaction}

/-- An adjustment is none of the rows that are not manual. -/
theorem HasAdjustment.ne_of_not_manual (h : db.HasAdjustment i t) {u : Transaction}
    (hu : db.transactions.get? u.id = some u) (hmanual : u.isManualAdjustment = false) :
    i ≠ u.id := by
  rintro rfl
  obtain ⟨t', ht', hadj⟩ := h
  rw [hu, Option.some_inj] at ht'
  rw [ht', hadj.manual] at hmanual
  exact absurd hmanual (by simp)

/-- A change that leaves the row alone keeps the adjustment. -/
theorem HasAdjustment.of_get?_eq (h : db.HasAdjustment i t)
    (hrow : db'.transactions.get? i = db.transactions.get? i) : db'.HasAdjustment i t := by
  unfold HasAdjustment
  rwa [hrow]

theorem Grows.hasAdjustment {P : Transaction → Prop} (h : Grows P db db')
    (hadj : db.HasAdjustment i t) : db'.HasAdjustment i t := by
  cases h with
  | openAccount | addCategory | setTemplates => exact hadj
  | post u =>
    obtain ⟨t', ht', h⟩ := hadj
    exact ⟨t', Table.get?_insert_of_some u ht', h⟩
  | link e j cat h =>
    refine hadj.of_get?_eq ?_
    rw [get?_linkRows h, if_neg (hadj.ne_of_not_manual h.expense_mem h.expense_manual),
      if_neg (hadj.ne_of_not_manual h.income_mem h.income_manual)]
  | retemplate f hf h =>
    obtain ⟨t', ht', hadj⟩ := hadj
    refine ⟨f t', by rw [Table.get?_mapRows, ht', Option.map_some], ?_⟩
    rw [h t' (Table.get?_mem ht')]
    exact ⟨hadj.amount_eq, hadj.type_eq, hadj.account_eq, hadj.date_eq, hadj.status_eq,
      hadj.settled, hadj.manual, hadj.unlinked⟩
  | openBatch ids org b hf =>
    obtain ⟨t', ht', hadj⟩ := hadj
    refine ⟨t'.assignBatch ids org db.importBatches.next, by
      rw [Table.get?_mapRows, ht', Option.map_some], ?_⟩
    rw [assignBatch_eq]
    exact ⟨hadj.amount_eq, hadj.type_eq, hadj.account_eq, hadj.date_eq, hadj.status_eq,
      hadj.settled, hadj.manual, hadj.unlinked⟩

theorem GrowsMany.hasAdjustment {P : Transaction → Prop} (h : db.GrowsMany P db')
    (hadj : db.HasAdjustment i t) : db'.HasAdjustment i t :=
  h.induct (fun hadj hgrow => hgrow.hasAdjustment hadj) hadj

/-- Deleting other rows keeps an adjustment. -/
theorem HasAdjustment.of_deleteTransactions (h : db.HasAdjustment i t) {ids : List ℕ}
    (hrows : db'.transactions = (db.deleteTransactions ids).transactions) (hi : i ∉ ids) :
    db'.HasAdjustment i t := by
  obtain ⟨t', ht', hadj⟩ := h
  refine ⟨unlinkFrom ids t', ?_, ?_⟩
  · rw [hrows, get?_deleteTransactions_eq_some]
    exact ⟨hi, t', ht', rfl⟩
  · have hsame : unlinkFrom ids t' = t' := by simp [unlinkFrom, hadj.unlinked]
    rwa [hsame]

/-- Removing rows that are not manual adjustments keeps the adjustments. -/
theorem HasAdjustment.remove (h : db.HasAdjustment i t) {rows : List Transaction}
    (hmem : ∀ u ∈ rows, db.transactions.get? u.id = some u)
    (hother : ∀ u ∈ rows, u.isManualAdjustment = false ∨ u.status = .pending) :
    (db.remove rows).HasAdjustment i t := by
  refine h.of_deleteTransactions (remove_transactions db rows) fun hi => ?_
  obtain ⟨u, hu, rfl⟩ := List.mem_map.mp hi
  obtain ⟨t', ht', hadj⟩ := h
  rw [hmem u hu, Option.some_inj] at ht'
  subst ht'
  rcases hother u hu with hmanual | hpending
  · exact absurd (hmanual.symm.trans hadj.manual) (by simp)
  · exact absurd (hpending.symm.trans hadj.settled) (by simp)

/-- Revising another row keeps an adjustment. -/
theorem HasAdjustment.revise (h : db.HasAdjustment i t) {u u' : Transaction} (hne : i ≠ u'.id) :
    (db.revise u u').HasAdjustment i t := by
  refine h.of_get?_eq ?_
  rw [get?_revise, if_neg hne]

/-- Breaking a pair keeps an adjustment, even one of the two rows. -/
theorem HasAdjustment.unlink (h : db.HasAdjustment i t) {u : Transaction}
    (hu : db.transactions.get? u.id = some u) (cat : ℕ) :
    (db.putTransaction (u.unlink cat)).HasAdjustment i t := by
  by_cases hi : i = u.id
  · subst hi
    obtain ⟨t', ht', hadj⟩ := h
    rw [hu, Option.some_inj] at ht'
    subst ht'
    exact ⟨u.unlink cat, get?_putTransaction_self (t := u.unlink cat) hu, hadj.amount_eq,
      hadj.type_eq, hadj.account_eq, hadj.date_eq, hadj.status_eq, hadj.settled, hadj.manual, rfl⟩
  · exact h.of_get?_eq (get?_putTransaction_of_ne db hi)

end Db

/-! ### Requests -/

section

variable {db db' : Db} {org i : ℕ} {t : Transaction}

theorem reconcileOne_hasAdjustment {s s' : Db × ImportBatch} {tr : ReconciliationTransition}
    (hwf : s.1.WellFormed) (hadj : s.1.HasAdjustment i t) (h : reconcileOne org s tr = .ok s') :
    s'.1.HasAdjustment i t := by
  obtain ⟨tx, htx, hb, ⟨-, rfl⟩ | ⟨-, -, tx', htr, rfl, -⟩⟩ :=
    reconcileOne_ok (fun tx htx hb => hwf.manual_of_batch htx hb) h
  · exact hadj
  · have hne := hadj.ne_of_not_manual (Db.transaction?_self htx) (hwf.manual_of_batch htx hb)
    refine hadj.of_get?_eq ?_
    rw [Db.get?_restate, if_neg (htr.id_eq ▸ hne)]

/-- A request that spares adjustments keeps every one of them. -/
theorem Request.step_hasAdjustment {r : Request} (hwf : db.WellFormed)
    (hadj : db.HasAdjustment i t) (hspares : SparesAdjustments db r)
    (h : Request.step db r = .ok db') : db'.HasAdjustment i t := by
  by_cases hadds : r.Adds
  · exact (Request.step_grows hwf hadds h).hasAdjustment hadj
  cases r with
  | update org id body today =>
    obtain ⟨edited, h⟩ := map_fst_eq_ok.mp h
    obtain ⟨ids, h⟩ := updateTransaction_ok h
    obtain ⟨tx, htx, hmanual, rfl, -, hcase⟩ := updateTransactionLocked_ok h
    have hne : i ≠ tx.id := hadj.ne_of_not_manual (Db.transaction?_self htx) hmanual
    have hrevised : (db.revise tx (editTransaction tx body today)).HasAdjustment i t :=
      hadj.revise hne
    rcases hcase with ⟨-, rfl⟩ | ⟨p, hpair, ⟨-, -, rfl⟩ | ⟨amount, -, rfl⟩⟩
    · exact hrevised
    · exact hrevised
    · -- The partner is linked back, an adjustment is not.
      refine hrevised.revise fun hi => ?_
      obtain ⟨t', ht', hunlinked⟩ := hadj
      have hp : db.transactions.get? i = some p := hi ▸ Db.transaction?_self hpair.partner_mem
      rw [hp, Option.some_inj] at ht'
      exact absurd (hunlinked.unlinked.symm.trans (ht' ▸ hpair.back)) (by simp)
  | delete org id =>
    obtain ⟨tx, htx, hmanual, rfl⟩ := deleteTransaction_ok h
    refine hadj.of_deleteTransactions (Db.deleteCascade_transactions db _ _) fun hi => ?_
    rcases List.mem_cons.mp hi with hi | hi
    · exact hadj.ne_of_not_manual (Db.transaction?_self htx) hmanual hi
    · obtain ⟨p, hp, rfl⟩ := List.mem_map.mp hi
      obtain ⟨l, hl, hp⟩ := Option.bind_eq_some_iff.mp (Option.mem_toList.mp hp)
      obtain rfl := Db.transaction?_id hp
      exact hadj.ne_of_not_manual (Db.transaction?_self hp)
        (hspares tx p htx hl (Db.transaction?_self hp)) rfl
  | bulkDelete org ids =>
    obtain ⟨_, h⟩ := map_fst_eq_ok.mp h
    rcases bulkDeleteTransactions_ok h with rfl | rfl
    · exact hadj
    · exact hadj.remove (fun u hu => (Db.mem_bulkRows.mp hu).1)
        fun u hu => .inl (Db.mem_bulkRows.mp hu).2.2.2
  | unpair org id ec ic =>
    obtain ⟨_, _, e, j, -, -, he, hj, -, -, het, hjt, -, rfl⟩ := unpairTransactions_ok h
    have hne : j.id ≠ e.id := by
      intro hid
      rw [Table.get?_inj he hj hid.symm, hjt] at het
      exact absurd het (by decide)
    exact (hadj.unlink he ec).unlink
      ((Db.get?_putTransaction_of_ne db (t := e.unlink ec) hne).trans hj) ic
  | stopRecurring org id today =>
    obtain ⟨db₁, hgrow, hrows, hgrow'⟩ := stopRecurring_removes (P := fun _ => True) hwf h
    refine hgrow'.hasAdjustment ((hgrow.hasAdjustment hadj).remove (fun u hu => ?_) fun u hu => ?_)
    · exact hrows ▸ (mem_pendingOfTemplate.mp hu).1
    · exact .inr (mem_pendingOfTemplate.mp hu).2.2.2.1
  | deleteRecurring org id today =>
    obtain ⟨db₁, hgrow, hrows, hgrow'⟩ := deleteRecurring_removes (P := fun _ => True) hwf h
    refine hgrow'.hasAdjustment ((hgrow.hasAdjustment hadj).remove (fun u hu => ?_) fun u hu => ?_)
    · exact hrows ▸ (mem_pendingOfTemplate.mp hu).1
    · exact .inr (mem_pendingOfTemplate.mp hu).2.2.2.1
  | reconcile org b body =>
    obtain ⟨_, h⟩ := map_fst_eq_ok.mp h
    obtain ⟨batch, db₁, batch₁, -, hloop, rfl⟩ := reconcileRequest_ok h
    exact (foldlM_invariant
      (fun s : Db × ImportBatch => s.1.WellFormed ∧ s.1.HasAdjustment i t)
      (fun _ _ _ hs h => ⟨reconcileOne_wellFormed hs.1 h, reconcileOne_hasAdjustment hs.1 hs.2 h⟩)
      body.transitions (db, batch) (db₁, batch₁) ⟨hwf, hadj⟩ hloop).2
  | _ => exact absurd trivial hadds

/-! ### Runs -/

/-- An adjustment stores its row. -/
theorem adjustAccountBalance_hasAdjustment {accountId : ℕ} {body : BalanceAdjustmentRequest}
    {today : Date} {tx : Transaction}
    (h : adjustAccountBalance db org accountId body today = .ok (db', tx)) :
    db'.HasAdjustment tx.id tx := by
  have hstatus : tx.status = .settled := by
    unfold adjustAccountBalance at h
    simp only [↓unit_bind_eq_ok, bind_eq_ok, adjustmentBody, pure_eq_ok] at h
    obtain ⟨_, -, -, _, ⟨_, -, _, -, rfl⟩, hcreate⟩ := h
    obtain ⟨-, -, rfl⟩ := createTransactionNoCommit_ok hcreate
    rfl
  obtain ⟨db₁, txBody, -, -, -, -, rfl, rfl⟩ := adjustAccountBalance_ok h
  exact ⟨_, Db.get?_post_next _ _, rfl, rfl, rfl, rfl, rfl, hstatus, rfl, rfl⟩

/-- Manual-adjustment immutability: in every run, from any reachable database, without a single
delete of a row that is linked to an adjustment, the row of an adjustment keeps its amount, type,
account, status and date and is never removed. -/
theorem adjustment_kept_of_run (hreach : db.ReachableBy fun _ => True) {accountId : ℕ}
    {body : BalanceAdjustmentRequest} {today : Date} {tx : Transaction}
    (hadjust : adjustAccountBalance db org accountId body today = .ok (db', tx))
    {rs : List Request} (hrs : Admits SparesAdjustments Request.step db' rs) :
    ∃ t, (serveAll Request.step db' rs).transactions.get? tx.id = some t ∧
      t.amount = tx.amount ∧ t.type = tx.type ∧ t.accountId = tx.accountId ∧
      t.status = tx.status ∧ t.date = tx.date ∧ t.isManualAdjustment = true := by
  have hwf : db'.WellFormed :=
    (adjustAccountBalance_grows (P := fun _ => True) (fun _ _ _ => trivial) hadjust).wellFormed
      hreach.wellFormed
  obtain ⟨t, ht, hadj⟩ := (serveAll_invariant
    (I := fun d : Db => d.WellFormed ∧ d.HasAdjustment tx.id tx)
    (fun d r d' hd hr hstep => ⟨Request.step_wellFormed hd.1 hstep,
      Request.step_hasAdjustment hd.1 hd.2 hr hstep⟩) rs
    ⟨hwf, adjustAccountBalance_hasAdjustment hadjust⟩ hrs).2
  exact ⟨t, ht, hadj.amount_eq, hadj.type_eq, hadj.account_eq, hadj.status_eq, hadj.date_eq,
    hadj.manual⟩

end

/-- Set the balance of the first account to 50.00. -/
def sampleAdjustment : BalanceAdjustmentRequest where
  targetBalance := 5000
  targetText := "50.00"
  lower := by decide
  upper := by decide

/-- A ledger with an adjustment, the row 1. -/
def adjustedDb : Db :=
  serve Request.step (serveAll Request.step sampleDb [sampleAccount "Checking"])
    (.adjust 1 1 sampleAdjustment sampleDate)

/-- An imported row is deleted next to the adjustment. -/
def sampleSparingRun : List Request :=
  [sampleImport 1 [.expense], .delete 1 2, sampleCreate 1 .income .settled]

theorem sampleSparingRun_admits :
    Admits SparesAdjustments Request.step adjustedDb sampleSparingRun := by
  refine ⟨trivial, fun tx p htx hl _ => ?_, trivial, trivial⟩
  have hunlinked : (serve Request.step adjustedDb (sampleImport 1 [.expense])).linkOf 2 = none := by
    decide +kernel
  rw [Db.linkOf_of_get? (Db.transaction?_eq_some.mp htx).1, hl] at hunlinked
  exact absurd hunlinked (by simp)

/-- The adjustment outlives the sample run. -/
theorem adjustment_kept_of_sampleSparingRun :
    ∃ tx, adjustAccountBalance (serveAll Request.step sampleDb [sampleAccount "Checking"]) 1 1
        sampleAdjustment sampleDate = .ok (adjustedDb, tx) ∧
      ∃ t, (serveAll Request.step adjustedDb sampleSparingRun).transactions.get? tx.id = some t ∧
        t.amount = tx.amount ∧ t.type = tx.type ∧ t.accountId = tx.accountId ∧
        t.status = tx.status ∧ t.date = tx.date ∧ t.isManualAdjustment = true := by
  have hreach : (serveAll Request.step sampleDb [sampleAccount "Checking"]).ReachableBy
      fun _ => True :=
    ⟨sampleDb, _, sampleDb_seeded, fun _ _ => trivial, rfl⟩
  cases h : adjustAccountBalance (serveAll Request.step sampleDb [sampleAccount "Checking"]) 1 1
      sampleAdjustment sampleDate with
  | error e =>
    have hok : (adjustAccountBalance (serveAll Request.step sampleDb [sampleAccount "Checking"]) 1 1
        sampleAdjustment sampleDate).toOption.isSome = true := by
      decide +kernel
    rw [h] at hok
    exact absurd hok (by simp [Except.toOption])
  | ok p =>
    obtain ⟨db', tx⟩ := p
    obtain rfl : adjustedDb = db' := serve_of_ok (map_fst_eq_ok.mpr ⟨tx, h⟩)
    exact ⟨tx, rfl, adjustment_kept_of_run hreach h sampleSparingRun_admits⟩

/-- An imported row is reopened, matched to the adjustment and deleted. -/
def sampleMatchedRun : List Request :=
  [sampleImport 1 [.expense],
    sampleMatch,
    .delete 1 2]

/-- The delete of that row removes the adjustment. -/
theorem adjustment_removed_of_sampleMatchedRun :
    (adjustedDb.transactions.get? 1).map (·.isManualAdjustment) = some true ∧
      (serveAll Request.step adjustedDb sampleMatchedRun).transactions.get? 1 = none := by
  constructor
  · decide +kernel
  · decide +kernel

end Pfv
