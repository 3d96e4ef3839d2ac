import Pfv.Ledger.Consistency

/-!
# The ledger law of every run

In a run of any requests, the stored balance of an account is its opening balance, plus its settled
income, minus its settled expense, plus what the slips of the run come to. There are two kinds of
slips. A single delete looks at the status of the requested row alone: it takes a linked row along
whose status is another one, and counts it as if it had the same. A transition to matched, skipped
or rejected takes a settled unlinked row off the balance while its status says that it still counts.
Each adds to the difference once, at its own time and for ever: nothing that becomes of the rows
later moves it again.

## Main definitions

* `ReconciliationTransition.slip`, `Request.slip`: by how much a request moves the balance of an
  account more than it moves the settled rows on it.
* `Db.SameDrift w`: the balances of two ledgers are as far from the weights of their rows.

## Main results

* `Request.drift_step`: a request moves the drift of an account by its slip.
* `balance_eq_of_fullRun`: the law.
-/

namespace Pfv

/-! ### Slips -/

/-- What a transition takes off the balance of an account while the row still counts as settled. -/
def ReconciliationTransition.slip (tr : ReconciliationTransition) (db : Db) (org k : ℕ) : ℤ :=
  match db.transaction? tr.transactionId org with
  | some tx =>
      if tx.accountId = k ∧ tx.linkedTransactionId = none ∧ tx.reconciliationState ≠ tr.toState ∧
          tr.toState ∈ [.matched, .skipped, .rejected] then
        -tx.settledAmount
      else 0
  | none => 0

/-- By how much a request moves the balance of an account more than the settled rows on it. -/
def Request.slip (k : ℕ) (db : Db) : Request → ℤ
  | .delete org id =>
      match db.transaction? id org with
      | some tx =>
          match tx.linkedTransactionId.bind fun l => db.transaction? l org with
          | some p =>
              if p.accountId = k then
                p.settledAmount - (if tx.status = .settled then p.type.signed p.amount else 0)
              else 0
          | none => 0
      | none => 0
  | .reconcile org b body =>
      match db.importBatch? b org with
      | some batch =>
          runWeight (reconcileOne org) (fun s tr => tr.slip s.1 org k) (db, batch) body.transitions
      | none => 0
  | _ => 0

namespace Db

/-- The balances of two ledgers are as far from the weights of their rows. -/
def SameDrift (w : Transaction → ℤ) (db db' : Db) : Prop :=
  ∀ k, db'.drift w k = db.drift w k

variable {db db' db'' : Db} {w : Transaction → ℤ}

theorem SameDrift.refl (w : Transaction → ℤ) (db : Db) : db.SameDrift w db :=
  fun _ => rfl

theorem SameDrift.trans (h : SameDrift w db db') (h' : SameDrift w db' db'') :
    SameDrift w db db'' :=
  fun k => (h' k).trans (h k)

/-- Accounts that do not exist do not drift. -/
theorem sameDrift_of_isSome (hwf : db.WellFormed) (hwf' : db'.WellFormed)
    (hkeeps : db.KeepsAccounts db')
    (h : ∀ k, (db'.accounts.get? k).isSome → db'.drift w k = db.drift w k) :
    db.SameDrift w db' := by
  intro k
  cases hk' : db'.accounts.get? k with
  | some acct => exact h k (by simp [hk'])
  | none =>
    have hk : db.accounts.get? k = none := by
      by_contra hsome
      have := hkeeps.isSome (Option.isSome_iff_ne_none.mpr hsome)
      simp [hk'] at this
    rw [drift_of_get?_eq_none hwf' hk', drift_of_get?_eq_none hwf hk]

theorem WellFormed.isSome_account (hwf : db.WellFormed) {t : Transaction}
    (ht : db.transactions.get? t.id = some t) : (db.accounts.get? t.accountId).isSome := by
  obtain ⟨acct, hacct⟩ := (hwf.row ht).account
  simp [(Db.account?_eq_some.mp hacct).1]

theorem WellFormed.remove_account (hwf : db.WellFormed) {t : Transaction}
    (ht : db.transactions.get? t.id = some t) (rows : List Transaction) :
    ((db.remove rows).accounts.get? t.accountId).isSome :=
  (keepsAccounts_remove db rows).isSome (hwf.isSome_account ht)

theorem drift_credit_of_account {a : ℕ} (ha : (db.accounts.get? a).isSome) (w : Transaction → ℤ)
    (x : ℤ) (k : ℕ) : (db.credit a x).drift w k = db.drift w k + if a = k then x else 0 := by
  rcases eq_or_ne a k with rfl | hne
  · exact drift_credit ha w a x
  · simp [drift, get?_credit, hne.symm, hne]

theorem drift_restate_of_account {t t' : Transaction}
    (ha : (db.accounts.get? t.accountId).isSome) (ht : db.transactions.get? t'.id = some t)
    (hacc : t'.accountId = t.accountId) (w : Transaction → ℤ) (k : ℕ) :
    (db.restate t t').drift w k = db.drift w k +
      if t.accountId = k then (t'.reportedAmount - t.reportedAmount) - (w t' - w t) else 0 := by
  have hmem : (db.credit t.accountId (t'.reportedAmount - t.reportedAmount)).transactions.get?
      t'.id = some t := ht
  rw [restate, drift_putTransaction hmem, drift_credit_of_account ha, hacc]
  split_ifs <;> ring

/-! ### Requests without slips -/

/-- One step that adds to the ledger lets no account drift. -/
theorem Grows.sameDrift {P : Transaction → Prop} (h : Grows P db db') (hwf : db.WellFormed)
    (hw : EntryWeight w db.transactions.next) : db.SameDrift w db' := by
  have hwf' := h.wellFormed hwf
  have hkeeps := h.keepsAccounts
  refine sameDrift_of_isSome hwf hwf' hkeeps fun k hk => ?_
  cases h with
  | openAccount a h =>
    rcases eq_or_ne k db.accounts.next with rfl | hne
    · -- No row is on an account that does not exist yet.
      have hrows : db.drift w db.accounts.next = 0 :=
        drift_of_get?_eq_none hwf (Table.get?_next db.accounts)
      have hsum : db.transactions.sumOver (·.accountId) w db.accounts.next = 0 := by
        simpa [drift, Table.get?_next] using hrows
      have hbalance : (Row.withId db.accounts.next a).balance = a.balance := rfl
      have hopening : (Row.withId db.accounts.next a).openingBalance = a.openingBalance := rfl
      rw [hrows, drift_eq_of_get? (Table.get?_insert_next db.accounts a), hsum, hbalance,
        hopening, h]
      ring
    · unfold drift
      rw [show (db.accounts.insert a).get? k = db.accounts.get? k by
        rw [Table.get?_insert, if_neg hne]]
  | addCategory | setTemplates => rfl
  | post t hrow hnew hP =>
    have hk' : (db.accounts.get? k).isSome := by
      rwa [Db.post, addTransaction_accounts, isSome_get?_credit] at hk
    exact drift_post hk' (hw.new hnew le_rfl)
  | link e i cat h =>
    have hi : (db.putTransaction (e.linkTo i.id cat)).transactions.get? i.id = some i :=
      (get?_putTransaction_of_ne db (t := e.linkTo i.id cat) h.id_ne.symm).trans h.income_mem
    rw [linkRows, drift_putTransaction_of_sameEntry hw hi (sameEntry_linkTo i e.id cat),
      drift_putTransaction_of_sameEntry hw h.expense_mem (sameEntry_linkTo e i.id cat)]
  | retemplate f hf h =>
    refine drift_mapRows_of_sameEntry hw (fun t ht => ?_) k
    rw [h t ht]
    rfl
  | openBatch ids org b hf =>
    have hsame : ∀ t ∈ db.transactions.rows,
        t.SameEntry (t.assignBatch ids org db.importBatches.next) := fun t _ => by
      rw [assignBatch_eq]
      rfl
    exact drift_mapRows_of_sameEntry hw hsame k

theorem GrowsMany.sameDrift {P : Transaction → Prop} (h : db.GrowsMany P db')
    (hwf : db.WellFormed) (hw : EntryWeight w db.transactions.next) : db.SameDrift w db' := by
  have hinv : db'.WellFormed ∧ EntryWeight w db'.transactions.next ∧ db.SameDrift w db' :=
    h.induct (I := fun d => d.WellFormed ∧ EntryWeight w d.transactions.next ∧ db.SameDrift w d)
      (fun hI hgrow => ⟨hgrow.wellFormed hI.1, hI.2.1.mono hgrow.next_le,
        hI.2.2.trans (hgrow.sameDrift hI.1 hI.2.1)⟩) ⟨hwf, hw, .refl w db⟩
  exact hinv.2.2

/-- Revising a row moves the balances as its settled amount. -/
theorem sameDrift_revise (hwf : db.WellFormed) {t t' : Transaction}
    (ht : db.transactions.get? t.id = some t) (ht' : db.RowOk t') (hid : t'.id = t.id) :
    db.SameDrift Transaction.settledAmount (db.revise t t') := by
  refine sameDrift_of_isSome hwf (hwf.revise ht') (keepsAccounts_revise db t t') fun k hk => ?_
  have hk' : (db.accounts.get? k).isSome := by
    rwa [Db.revise, isSome_get?_credit, putTransaction_accounts, isSome_get?_credit] at hk
  rw [drift_revise hk' (hid ▸ ht)]
  simp

/-- Removing rows moves the balances as their settled amounts. -/
theorem sameDrift_remove (hwf : db.WellFormed) {rows : List Transaction}
    (hnodup : (rows.map (·.id)).Nodup) (hmem : ∀ t ∈ rows, db.transactions.get? t.id = some t) :
    db.SameDrift Transaction.settledAmount (db.remove rows) := by
  refine sameDrift_of_isSome hwf (hwf.remove rows) (keepsAccounts_remove db rows) fun k hk => ?_
  have hk' : (db.accounts.get? k).isSome := by
    rwa [Db.remove, deleteTransactions_accounts, isSome_get?_revertAll] at hk
  exact drift_remove hk' hnodup hmem (fun _ _ => rfl) fun _ t _ _ =>
    (entryWeight_settledAmount 0).entry (sameEntry_unlinkFrom _ t)

theorem sameDrift_unlink {e i : Transaction} (he : db.transactions.get? e.id = some e)
    (hi : db.transactions.get? i.id = some i) (hne : e.id ≠ i.id) (ec ic : ℕ) :
    db.SameDrift Transaction.settledAmount
      ((db.putTransaction (e.unlink ec)).putTransaction (i.unlink ic)) := by
  intro k
  have hi' : (db.putTransaction (e.unlink ec)).transactions.get? i.id = some i :=
    (get?_putTransaction_of_ne db (t := e.unlink ec) hne.symm).trans hi
  rw [drift_putTransaction_of_sameEntry (entryWeight_settledAmount 0) hi' (sameEntry_unlink i ic),
    drift_putTransaction_of_sameEntry (entryWeight_settledAmount 0) he (sameEntry_unlink e ec)]

end Db

namespace Request

variable {db db' : Db} {org : ℕ}

/-- Removing the pending rows of a template between steps that add to the ledger. -/
theorem pendingRemoved_sameDrift {db₁ : Db} {id : ℕ} {today : Date} (hwf : db.WellFormed)
    (hgrow : db.GrowsMany (fun _ => True) db₁) (hrows : db₁.transactions = db.transactions)
    (hgrow' : (db₁.remove (pendingOfTemplate db org id today)).GrowsMany (fun _ => True) db') :
    db.SameDrift Transaction.settledAmount db' := by
  have hwf₁ := hgrow.wellFormed hwf
  have hremove := Db.sameDrift_remove hwf₁ (pendingOfTemplate_nodup db org id today) fun t ht => by
    rw [hrows]
    exact (mem_pendingOfTemplate.mp ht).1
  exact (hgrow.sameDrift hwf (entryWeight_settledAmount _)).trans (hremove.trans
    (hgrow'.sameDrift (hwf₁.remove _) (entryWeight_settledAmount _)))

/-- A request that moves balances by the status of each row lets no account drift. -/
theorem sameDrift_step {r : Request} (hwf : db.WellFormed) (htrusts : r.TrustsStatus)
    (h : step db r = .ok db') : db.SameDrift Transaction.settledAmount db' := by
  by_cases hadds : r.Adds
  · exact (step_grows hwf hadds h).sameDrift hwf (entryWeight_settledAmount _)
  cases r with
  | update org id body today =>
    obtain ⟨edited, h⟩ := map_fst_eq_ok.mp h
    obtain ⟨ids, h⟩ := updateTransaction_ok h
    obtain ⟨tx, htx, -, rfl, hacc, hcase⟩ := updateTransactionLocked_ok h
    have hget := Db.transaction?_self htx
    have hedited : db.RowOk (editTransaction tx body today) :=
      editTransaction_rowOk (hwf.row hget) ((Db.transaction?_eq_some.mp htx).2 ▸ hacc)
    have hrevised := Db.sameDrift_revise hwf hget hedited rfl
    rcases hcase with ⟨-, rfl⟩ | ⟨p, hpair, ⟨-, -, rfl⟩ | ⟨amount, -, rfl⟩⟩
    · exact hrevised
    · exact hrevised
    · -- The partner is another row, so the first revision left it as it was.
      have hp := Db.transaction?_self hpair.partner_mem
      have hp' : (db.revise tx (editTransaction tx body today)).transactions.get? p.id =
          some p := by
        rw [Db.get?_revise]
        exact (if_neg hpair.id_ne).trans hp
      exact hrevised.trans (Db.sameDrift_revise (hwf.revise hedited) hp'
        ((mirrored_rowOk (hwf.row hp) amount).mono (Db.keepsAccounts_revise db _ _) le_rfl) rfl)
  | bulkDelete org ids =>
    obtain ⟨_, h⟩ := map_fst_eq_ok.mp h
    rcases bulkDeleteTransactions_ok h with rfl | rfl
    · exact .refl _ _
    · exact Db.sameDrift_remove hwf (Db.bulkRows_nodup db _ _) fun t ht =>
        (Db.mem_bulkRows.mp ht).1
  | unpair org id ec ic =>
    obtain ⟨_, _, e, i, -, -, he, hi, -, -, het, hit, -, rfl⟩ := unpairTransactions_ok h
    refine Db.sameDrift_unlink he hi (fun hid => ?_) ec ic
    rw [Table.get?_inj he hi hid, hit] at het
    exact absurd het (by decide)
  | stopRecurring org id today =>
    obtain ⟨db₁, hgrow, hrows, hgrow'⟩ := stopRecurring_removes (P := fun _ => True) hwf h
    exact pendingRemoved_sameDrift hwf hgrow hrows hgrow'
  | deleteRecurring org id today =>
    obtain ⟨db₁, hgrow, hrows, hgrow'⟩ := deleteRecurring_removes (P := fun _ => True) hwf h
    exact pendingRemoved_sameDrift hwf hgrow hrows hgrow'
  | delete | reconcile => exact htrusts.elim
  | _ => exact absurd trivial hadds

/-! ### The single delete -/

/-- The single delete of a pair is its removal, up to the settled amount of the row taken along
against what the status of the other row makes of it. -/
theorem deleteCascade_eq_credit (db : Db) (tx p : Transaction) :
    db.deleteCascade tx (some p) = (db.remove [tx, p]).credit p.accountId
      (p.settledAmount - if tx.status = .settled then p.type.signed p.amount else 0) := by
  have hids : ∀ i, i ∈ [p.id, tx.id] ↔ i ∈ [tx, p].map (·.id) := by
    intro i
    simp [or_comm]
  have hcredit : (db.remove [tx, p]).credit p.accountId
      (p.settledAmount - if tx.status = .settled then p.type.signed p.amount else 0) =
      (((db.credit tx.accountId (-tx.settledAmount)).credit p.accountId (-p.settledAmount)).credit
        p.accountId (p.settledAmount - if tx.status = .settled then p.type.signed p.amount else 0)
        ).deleteTransactions ([tx, p].map (·.id)) := rfl
  rw [hcredit, Db.deleteCascade, Db.deleteTransactions_congr _ hids, Db.credit_credit]
  congr 1
  split_ifs with hsettled
  · rw [show tx.settledAmount = tx.type.signed tx.amount by
      simp [Transaction.settledAmount, hsettled]]
    congr 1
    ring
  · rw [show tx.settledAmount = 0 by simp [Transaction.settledAmount, hsettled]]
    simp [Db.credit_zero]

theorem drift_delete {id : ℕ} (hwf : db.WellFormed) (hself : db.NoSelfLink)
    (h : deleteTransaction db org id = .ok db') (k : ℕ) :
    db'.drift Transaction.settledAmount k =
      db.drift Transaction.settledAmount k + slip k db (.delete org id) := by
  obtain ⟨tx, htx, -, rfl⟩ := deleteTransaction_ok h
  have hget := Db.transaction?_self htx
  simp only [slip, htx]
  cases hp : tx.linkedTransactionId.bind fun l => db.transaction? l org with
  | none =>
    have hremove : db.SameDrift Transaction.settledAmount (db.remove [tx]) := by
      refine Db.sameDrift_remove hwf (List.nodup_singleton _) fun t ht => ?_
      rw [List.mem_singleton.mp ht]
      exact hget
    exact (hremove k).trans (add_zero _).symm
  | some p =>
    obtain ⟨l, hl, hlp⟩ := Option.bind_eq_some_iff.mp hp
    have hpget := Db.transaction?_self hlp
    have hne : tx.id ≠ p.id := by
      intro hid
      have hlink := hself tx.id
      rw [Db.linkOf_of_get? hget, hl, hid, Db.transaction?_id hlp] at hlink
      exact hlink rfl
    have hremove : db.SameDrift Transaction.settledAmount (db.remove [tx, p]) := by
      refine Db.sameDrift_remove hwf (by simpa using hne) fun t ht => ?_
      rcases List.mem_cons.mp ht with rfl | ht
      · exact hget
      · rw [List.mem_singleton.mp ht]
        exact hpget
    rw [deleteCascade_eq_credit, Db.drift_credit_of_account (hwf.remove_account hpget _), hremove k]

/-! ### Transitions -/

/-- The slip of a transition of a row is what its balance moves more than its settled amount. -/
theorem slip_eq_of_transitioned {tr : ReconciliationTransition} {tx tx' : Transaction}
    (htx : db.transaction? tr.transactionId org = some tx)
    (hmanual : tx.isManualAdjustment = false) (hne : tx.reconciliationState ≠ tr.toState)
    (hallowed : tr.toState ∈ allowedTransitions tx.reconciliationState)
    (hedits : tr.toState = .edited → tr.edits.isSome) (htr : Transitioned tr tx tx') (k : ℕ) :
    tr.slip db org k = if tx.accountId = k then
      (tx'.reportedAmount - tx.reportedAmount) - (tx'.settledAmount - tx.settledAmount) else 0 := by
  simp only [ReconciliationTransition.slip, htx, hne, ne_eq, not_false_eq_true, true_and]
  rcases eq_or_ne tx.accountId k with hk | hk
  swap
  · rw [if_neg hk, if_neg fun hall => hk hall.1]
  rw [if_pos hk]
  unfold Transaction.reportedAmount Transaction.settledAmount
  rw [htr.status_eq]
  cases hstatus : tx.status with
  | pending => simp
  | settled =>
    cases hlink : tx.linkedTransactionId with
    | some l =>
      -- Neither version is reportable, and a linked row is not edited.
      have hamount : tx'.amount = tx.amount := by
        refine htr.amount_eq fun hedited => ?_
        rw [htr.unlinked_of_edited hedited (hedits hedited)] at hlink
        cases hlink
      have hrep : tx.isReportable = false := by simp [Transaction.isReportable, hlink]
      have hlinked := htr.reconciled.linked (by simp [hlink])
      rw [Option.isSome_iff_ne_none] at hlinked
      have hrep' : tx'.isReportable = false := by simp [Transaction.isReportable, hlinked]
      simp [hrep, hrep', hamount, htr.type_eq]
    | none =>
      have hrep : tx.isReportable = true := by
        rw [Transaction.isReportable_eq_true]
        refine ⟨hlink, hmanual, fun hs => ?_, fun hs => ?_⟩ <;>
          simp [hs, allowedTransitions] at hallowed
      by_cases htaken : tr.toState ∈ [.matched, .skipped, .rejected]
      · have hrep' : tx'.isReportable = false := by
          simp only [List.mem_cons, List.not_mem_nil, or_false] at htaken
          rcases htaken with hstate | hstate | hstate
          · obtain ⟨m, -, -, hm⟩ := htr.link_of_matched hstate
            simp [Transaction.isReportable, hm]
          · simp [Transaction.isReportable, htr.state_eq, hstate]
          · simp [Transaction.isReportable, htr.state_eq, hstate]
        have hamount : tx'.amount = tx.amount :=
          htr.amount_eq fun hedited => by simp [hedited] at htaken
        simp [hrep, hrep', htaken, hk, hamount, htr.type_eq]
      · have hstates : tr.toState ≠ .matched ∧ tr.toState ≠ .skipped ∧ tr.toState ≠ .rejected := by
          simpa using htaken
        have hrep' : tx'.isReportable = true := by
          rw [Transaction.isReportable_eq_true, htr.link_eq hstates.1, htr.manual_eq, htr.state_eq]
          exact ⟨hlink, hmanual, hstates.2⟩
        simp [hrep, hrep', htaken]

/-- A transition moves the drift of an account by its slip. -/
theorem drift_reconcileOne {s s' : Db × ImportBatch} {tr : ReconciliationTransition}
    (hwf : s.1.WellFormed) (h : reconcileOne org s tr = .ok s') (k : ℕ) :
    s'.1.drift Transaction.settledAmount k =
      s.1.drift Transaction.settledAmount k + tr.slip s.1 org k := by
  obtain ⟨tx, htx, hb, ⟨hstate, rfl⟩ | ⟨hne, hallowed, tx', htr, rfl, -⟩⟩ :=
    reconcileOne_ok (fun tx htx hb => hwf.manual_of_batch htx hb) h
  · simp [ReconciliationTransition.slip, htx, hstate]
  have hget := Db.transaction?_self htx
  rw [slip_eq_of_transitioned htx (hwf.manual_of_batch htx hb) hne hallowed
    (edits_isSome_of_reconcileOne h) htr]
  exact Db.drift_restate_of_account (hwf.isSome_account hget)
    (htr.id_eq ▸ hget) htr.accountId_eq _ k

/-! ### The law -/

/-- A request moves the drift of an account by its slip. -/
theorem drift_step {r : Request} (hwf : db.WellFormed) (hself : db.NoSelfLink)
    (h : step db r = .ok db') (k : ℕ) :
    db'.drift Transaction.settledAmount k =
      db.drift Transaction.settledAmount k + r.slip k db := by
  cases r with
  | delete org id => exact drift_delete hwf hself h k
  | reconcile org b body =>
    obtain ⟨_, h⟩ := map_fst_eq_ok.mp h
    obtain ⟨batch, db₁, batch₁, hbatch, hloop, rfl⟩ := reconcileRequest_ok h
    have hsum := measure_foldlM (I := fun s : Db × ImportBatch => s.1.WellFormed)
      (μ := fun s : Db × ImportBatch => s.1.drift Transaction.settledAmount k)
      (fun s tr s' hs hone => ⟨reconcileOne_wellFormed hs hone, drift_reconcileOne hs hone k⟩)
      hwf hloop
    simp only [slip, hbatch]
    exact hsum
  | _ => exact (sameDrift_step hwf (by exact trivial) h k).trans (add_zero _).symm

end Request

/-- The ledger law of every run of requests: the balance of an account is its opening balance, plus
its settled income, minus its settled expense, plus the slips of the run, and the check of the
account reports the balance and finds it consistent exactly when the opening balance and the slips
cancel. -/
theorem balance_eq_of_fullRun {db : Db} (hseeded : db.Seeded) (rs : List Request) {a : ℕ}
    {acct : Account} (hacct : (serveAll Request.step db rs).accounts.get? a = some acct) :
    acct.balance = acct.openingBalance + (serveAll Request.step db rs).settledSum a .income -
        (serveAll Request.step db rs).settledSum a .expense +
          runWeight Request.step (Request.slip a) db rs ∧
      ((reconcileAccount (serveAll Request.step db rs) acct.orgId acct).2.2 = true ↔
        acct.openingBalance + runWeight Request.step (Request.slip a) db rs = 0) := by
  have hself : db.NoSelfLink := fun i => by simp [Db.linkOf, hseeded.get?_transactions]
  have hadmits : Admits (fun _ _ => True) Request.step db rs :=
    admits_of_forall (fun _ _ h => h) rs db fun _ _ => trivial
  have hinv : (serveAll Request.step db rs).WellFormed :=
    serveAll_invariant (fun _ _ _ hd _ hstep => Request.step_wellFormed hd hstep) rs
      hseeded.wellFormed hadmits
  have hdrift : (serveAll Request.step db rs).drift Transaction.settledAmount a =
      db.drift Transaction.settledAmount a + runWeight Request.step (Request.slip a) db rs :=
    measure_serveAll (I := fun d : Db => d.WellFormed ∧ d.NoSelfLink)
    (fun d r d' hd hstep => ⟨⟨Request.step_wellFormed hd.1 hstep,
      Request.step_noSelfLink hd.1 hd.2 hstep⟩, Request.drift_step hd.1 hd.2 hstep a⟩) rs
    ⟨hseeded.wellFormed, hself⟩
  rw [hseeded.balanced _ a, zero_add, Db.drift_eq_of_get? hacct, Db.sumOver_settledAmount] at hdrift
  refine ⟨by linarith, ?_⟩
  simp only [reconcileAccount, settledTotal_eq hinv hacct, decide_eq_true_eq]
  constructor <;> intro h <;> linarith

/-- The first row is reopened and skipped. -/
def sampleSkip : List ReconciliationTransition :=
  [{ transactionId := 1, toState := .pendingReview }, { transactionId := 1, toState := .skipped }]

theorem sampleSkip_ne_nil : sampleSkip ≠ [] := List.cons_ne_nil _ _

theorem length_sampleSkip : sampleSkip.length ≤ 500 := by decide

/-- An account that opens at 50.00, and an imported expense that is reopened, skipped and
deleted. -/
def sampleSlippingRun : List Request :=
  [sampleOpeningAccount 5000 sampleOpening_lower sampleOpening_upper, sampleImport 1 [.expense],
    sampleReconcile sampleSkip sampleSkip_ne_nil length_sampleSkip, .delete 1 1]

/-- The expense is given back twice: no row is left, and the slip of the skip stays. -/
theorem balance_eq_of_sampleSlippingRun :
    (serveAll Request.step sampleDb sampleSlippingRun).transactions.rows = [] ∧
      runWeight Request.step (Request.slip 1) sampleDb sampleSlippingRun = 1000 := by
  have hrows : (serveAll Request.step sampleDb sampleSlippingRun).transactions.rows = [] := by
    decide +kernel
  have hacct : (serveAll Request.step sampleDb sampleSlippingRun).accounts.get? 1 =
      some { id := 1, orgId := 1, accountTypeId := 1, name := "Checking", balance := 6000
             openingBalance := 5000, openingBalanceDate := sampleDate } := by
    decide +kernel
  have hlaw := (balance_eq_of_fullRun sampleDb_seeded sampleSlippingRun hacct).1
  simp only [Db.settledSum, hrows, List.filter_nil, List.map_nil, List.sum_nil] at hlaw
  exact ⟨hrows, by linarith⟩

end Pfv
