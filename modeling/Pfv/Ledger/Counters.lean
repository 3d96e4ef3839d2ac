import Pfv.Ledger.Batches

/-!
# The counters of a batch

Reconcile requests move the rows of a batch from state to state and keep two counters on the batch
by adding and taking off one. The counters are always the numbers of rows they stand for, so the
clamp of the service at zero never changes a value.

## Main definitions

* `Counted db batch`: the counters of a batch are the numbers of its rows.
* `MovesCounters`: the counters moved from one state to another without a clamp.
* `Db.KeepsCounters`: the contract of the reconcile requests on a batch.

## Main results

* `reconcileOne_counted`: a transition keeps the counters, without the clamp.
* `keepsCounters_of_run`: the contract holds after every run of reconcile requests on a batch.
-/

namespace Pfv

/-- The counters of a batch are the numbers of its rows. -/
structure Counted (db : Db) (batch : ImportBatch) : Prop where
  pending : batch.pendingCount = pendingRows db batch.id
  accepted : batch.acceptedCount = acceptedRows db batch.id

/-- The counters of a batch after a row went from one state to another, without a clamp. -/
structure MovesCounters (batch batch' : ImportBatch)
    (sourceState targetState : ReconciliationState) : Prop where
  pending : batch'.pendingCount = batch.pendingCount -
    (if sourceState.isPending = true then 1 else 0) + if targetState.isPending = true then 1 else 0
  accepted : batch'.acceptedCount = batch.acceptedCount -
    (if sourceState = .accepted then 1 else 0) + if targetState = .accepted then 1 else 0

/-- The states a row never leaves. -/
def ReconciliationState.Terminal (s : ReconciliationState) : Prop :=
  s = .skipped ∨ s = .rejected

theorem ReconciliationState.Terminal.allowedTransitions_eq_nil {s : ReconciliationState}
    (h : s.Terminal) : allowedTransitions s = [] := by
  rcases h with rfl | rfl <;> rfl

/-- The clamp does not change the pending counter when the row that leaves a state was counted. -/
theorem pendingCount_countTransition (batch : ImportBatch)
    (sourceState targetState : ReconciliationState)
    (h : sourceState.isPending = true → 1 ≤ batch.pendingCount) :
    (batch.countTransition sourceState targetState).pendingCount = batch.pendingCount -
      (if sourceState.isPending = true then 1 else 0) +
        if targetState.isPending = true then 1 else 0 := by
  unfold ImportBatch.countTransition
  by_cases hs : sourceState.isPending = true <;> by_cases ht : targetState.isPending = true
  · simp [hs, ht]
  · have := h hs
    simp [hs, ht, max_eq_right (sub_nonneg.mpr this)]
  · simp [hs, ht]
  · simp [hs, ht]

/-- The same for the accepted counter. -/
theorem acceptedCount_countTransition (batch : ImportBatch)
    (sourceState targetState : ReconciliationState)
    (h : sourceState = .accepted → 1 ≤ batch.acceptedCount) :
    (batch.countTransition sourceState targetState).acceptedCount = batch.acceptedCount -
      (if sourceState = .accepted then 1 else 0) + if targetState = .accepted then 1 else 0 := by
  unfold ImportBatch.countTransition
  by_cases hs : sourceState = .accepted <;> by_cases ht : targetState = .accepted
  · simp [hs, ht]
  · have := h hs
    simp [hs, ht, max_eq_right (sub_nonneg.mpr this)]
  · simp [hs, ht]
  · simp [hs, ht]

/-! ### One item -/

section

variable {org : ℕ} {s s' : Db × ImportBatch} {tr : ReconciliationTransition}

/-- Restating a row of a batch takes its old state out of the counts and puts the new one in. -/
theorem stateCount_restate {db : Db} {b : ℕ} {tx tx' : Transaction}
    (hget : db.transactions.get? tx.id = some tx) (hb : tx.importBatchId = some b)
    (htr : Transitioned tr tx tx') (p : ReconciliationState → Bool) :
    ((db.restate tx tx').stateCount b p : ℤ) = db.stateCount b p -
      (if p tx.reconciliationState = true then 1 else 0) +
        if p tr.toState = true then 1 else 0 := by
  rw [← htr.state_eq]
  exact Db.stateCount_putTransaction (htr.id_eq ▸ hget) hb (htr.batch_eq ▸ hb)

/-- An accepted item keeps the pending counter of the batch, and moves it without a clamp. -/
theorem reconcileOne_pendingCount (hwf : s.1.WellFormed)
    (hpending : s.2.pendingCount = pendingRows s.1 s.2.id) (h : reconcileOne org s tr = .ok s') :
    s'.2.pendingCount = pendingRows s'.1 s'.2.id ∧
      ∀ tx, s.1.transaction? tr.transactionId org = some tx →
        s'.2.pendingCount = s.2.pendingCount -
          (if tx.reconciliationState.isPending = true then 1 else 0) +
            if tr.toState.isPending = true then 1 else 0 := by
  obtain ⟨tx, htx, hb, ⟨hself, rfl⟩ | ⟨-, -, tx', htr, rfl, -⟩⟩ :=
    reconcileOne_ok (fun tx htx hb => hwf.manual_of_batch htx hb) h
  · refine ⟨hpending, fun u hu => ?_⟩
    rw [htx, Option.some_inj] at hu
    rw [← hu, hself]
    ring
  have hget := Db.transaction?_self htx
  have hmoves := pendingCount_countTransition s.2 tx.reconciliationState tr.toState
    fun hp => by
      rw [hpending, pendingRows_eq]
      exact_mod_cast Db.one_le_stateCount hget hb hp
  refine ⟨?_, fun u hu => ?_⟩
  · rw [hmoves, pendingRows_eq]
    exact (stateCount_restate hget hb htr _ ▸ by rw [hpending, pendingRows_eq])
  · rw [htx, Option.some_inj] at hu
    exact hu ▸ hmoves

/-- The same for the accepted counter. -/
theorem reconcileOne_acceptedCount (hwf : s.1.WellFormed)
    (haccepted : s.2.acceptedCount = acceptedRows s.1 s.2.id)
    (h : reconcileOne org s tr = .ok s') :
    s'.2.acceptedCount = acceptedRows s'.1 s'.2.id ∧
      ∀ tx, s.1.transaction? tr.transactionId org = some tx →
        s'.2.acceptedCount = s.2.acceptedCount -
          (if tx.reconciliationState = .accepted then 1 else 0) +
            if tr.toState = .accepted then 1 else 0 := by
  obtain ⟨tx, htx, hb, ⟨hself, rfl⟩ | ⟨-, -, tx', htr, rfl, -⟩⟩ :=
    reconcileOne_ok (fun tx htx hb => hwf.manual_of_batch htx hb) h
  · refine ⟨haccepted, fun u hu => ?_⟩
    rw [htx, Option.some_inj] at hu
    rw [← hu, hself]
    ring
  have hget := Db.transaction?_self htx
  have hmoves := acceptedCount_countTransition s.2 tx.reconciliationState tr.toState
    fun ha => by
      rw [haccepted, acceptedRows_eq]
      exact_mod_cast Db.one_le_stateCount hget hb (by simpa using ha)
  have hcount := stateCount_restate hget hb htr fun s => decide (s = .accepted)
  simp only [decide_eq_true_eq] at hcount
  refine ⟨?_, fun u hu => ?_⟩
  · rw [hmoves, acceptedRows_eq]
    exact (hcount ▸ by rw [haccepted, acceptedRows_eq])
  · rw [htx, Option.some_inj] at hu
    exact hu ▸ hmoves

/-- An accepted item keeps the counters of the batch equal to the numbers of its rows, and moves
them without a clamp. -/
theorem reconcileOne_counted (hwf : s.1.WellFormed) (hcounted : Counted s.1 s.2)
    (h : reconcileOne org s tr = .ok s') :
    Counted s'.1 s'.2 ∧ ∃ tx, s.1.transaction? tr.transactionId org = some tx ∧
      MovesCounters s.2 s'.2 tx.reconciliationState tr.toState := by
  obtain ⟨tx, htx, -⟩ := reconcileOne_ok (fun tx htx hb => hwf.manual_of_batch htx hb) h
  obtain ⟨hpending, hmovesPending⟩ := reconcileOne_pendingCount hwf hcounted.pending h
  obtain ⟨haccepted, hmovesAccepted⟩ := reconcileOne_acceptedCount hwf hcounted.accepted h
  exact ⟨⟨hpending, haccepted⟩, tx, htx, hmovesPending tx htx, hmovesAccepted tx htx⟩

/-- A row in a terminal state stays in it. -/
theorem reconcileOne_terminal (hwf : s.1.WellFormed) (h : reconcileOne org s tr = .ok s') {i : ℕ}
    {t : Transaction} (ht : s.1.transactions.get? i = some t)
    (hterminal : t.reconciliationState.Terminal) : s'.1.transactions.get? i = some t := by
  obtain ⟨tx, htx, -, ⟨-, rfl⟩ | ⟨-, hallowed, tx', htr, rfl, -⟩⟩ :=
    reconcileOne_ok (fun tx htx hb => hwf.manual_of_batch htx hb) h
  · exact ht
  · rw [Db.get?_restate, if_neg, ht]
    rintro rfl
    rw [htr.id_eq, Db.transaction?_self htx, Option.some_inj] at ht
    rw [ht, hterminal.allowedTransitions_eq_nil] at hallowed
    exact absurd hallowed (by simp)

/-! ### One request -/

/-- The state of the loop of a request on a batch: the ledger is well formed, the counters in
memory are right and the stored batches are those of the start. -/
structure CountedLoop (start : Db × ImportBatch) (s : Db × ImportBatch) : Prop where
  wellFormed : s.1.WellFormed
  counted : Counted s.1 s.2
  id_eq : s.2.id = start.2.id
  orgId_eq : s.2.orgId = start.2.orgId
  batches_eq : s.1.importBatches = start.1.importBatches

theorem CountedLoop.step {start : Db × ImportBatch} (hs : CountedLoop start s)
    (h : reconcileOne org s tr = .ok s') : CountedLoop start s' := by
  have hwf := reconcileOne_wellFormed hs.wellFormed h
  have hcounted := (reconcileOne_counted hs.wellFormed hs.counted h).1
  obtain ⟨tx, -, -, ⟨-, rfl⟩ | ⟨-, -, tx', -, rfl, -⟩⟩ :=
    reconcileOne_ok (fun tx htx hb => hs.wellFormed.manual_of_batch htx hb) h
  · exact hs
  · exact ⟨hwf, hcounted, hs.id_eq, hs.orgId_eq, hs.batches_eq⟩

theorem CountedLoop.loop {start : Db × ImportBatch} {trs : List ReconciliationTransition}
    (hs : CountedLoop start s) (h : trs.foldlM (reconcileOne org) s = .ok s') :
    CountedLoop start s' :=
  foldlM_invariant (CountedLoop start) (fun _ _ _ hs h => hs.step h) trs s s' hs h

theorem counted_closeBatchIfComplete {db : Db} {batch : ImportBatch} (h : Counted db batch) :
    Counted db (closeBatchIfComplete db batch) := by
  unfold closeBatchIfComplete
  split_ifs
  · exact h
  · exact h
  · exact ⟨rfl, h.accepted⟩
  · exact ⟨h.pending, h.accepted⟩

theorem closeBatchIfComplete_orgId (db : Db) (batch : ImportBatch) :
    (closeBatchIfComplete db batch).orgId = batch.orgId := by
  unfold closeBatchIfComplete
  split_ifs <;> rfl

end

/-- The counters stored with a batch are the numbers of its rows. -/
structure Db.BatchCounted (db : Db) (org b : ℕ) : Prop where
  wellFormed : db.WellFormed
  counted : ∃ batch, db.importBatch? b org = some batch ∧ Counted db batch

section

variable {db db' : Db} {org b : ℕ} {r : Request}

/-- The loop of a request on a counted batch starts from the counters of the batch. -/
theorem Db.BatchCounted.start (h : db.BatchCounted org b) {batch : ImportBatch}
    (hbatch : db.importBatch? b org = some batch) :
    CountedLoop (db, batch) (db, batch) := by
  obtain ⟨batch', hbatch', hcounted⟩ := h.counted
  rw [hbatch, Option.some_inj] at hbatch'
  exact ⟨h.wellFormed, hbatch' ▸ hcounted, rfl, rfl, rfl⟩

/-- A reconcile request on a counted batch leaves it counted. -/
theorem Request.step_batchCounted (h : db.BatchCounted org b) (hr : r.OnBatch org b)
    (hstep : Request.step db r = .ok db') : db'.BatchCounted org b := by
  have hwf := Request.step_wellFormed h.wellFormed hstep
  cases r with
  | reconcile org' batchId body =>
    obtain ⟨rfl, rfl⟩ := hr
    obtain ⟨_, hstep⟩ := map_fst_eq_ok.mp hstep
    obtain ⟨batch, db₁, batch₁, hbatch, hloop, rfl⟩ := reconcileRequest_ok hstep
    have hs := (h.start hbatch).loop hloop
    obtain ⟨hget, horg⟩ := Db.importBatch?_eq_some.mp hbatch
    have hid := Db.importBatch?_id hbatch
    have hclosed := counted_closeBatchIfComplete hs.counted
    refine ⟨hwf, closeBatchIfComplete db₁ batch₁, Db.importBatch?_eq_some.mpr ⟨?_, ?_⟩,
      hclosed.pending, hclosed.accepted⟩
    · have hmem :
          db₁.importBatches.get? (Row.id (closeBatchIfComplete db₁ batch₁)) = some batch := by
        rw [ImportBatch.row_id, closeBatchIfComplete_id, hs.id_eq, hs.batches_eq, hid]
        exact hget
      have hput := Table.get?_put_self hmem
      rwa [ImportBatch.row_id, closeBatchIfComplete_id, hs.id_eq, hid] at hput
    · rw [closeBatchIfComplete_orgId, hs.orgId_eq, horg]
  | _ => exact hr.elim

theorem Db.AfterImport.batchCounted (h : db.AfterImport org b) : db.BatchCounted org b := by
  obtain ⟨batch, hfresh⟩ := h.freshBatch
  have hid := Db.importBatch?_id hfresh.batch_mem
  refine ⟨hfresh.wellFormed, batch, hfresh.batch_mem, ?_, ?_⟩
  · rw [hid, hfresh.pendingRows_eq_zero, hfresh.pending_eq]
    rfl
  · rw [hid, hfresh.accepted_eq]

/-- A row in a terminal state stays in it when a request is served. -/
theorem Request.step_terminal (hwf : db.WellFormed) (hr : r.OnBatch org b)
    (hstep : Request.step db r = .ok db') {i : ℕ} {t : Transaction}
    (ht : db.transactions.get? i = some t) (hterminal : t.reconciliationState.Terminal) :
    db'.transactions.get? i = some t := by
  cases r with
  | reconcile org' batchId body =>
    obtain ⟨_, hstep⟩ := map_fst_eq_ok.mp hstep
    obtain ⟨batch, db₁, batch₁, -, hloop, rfl⟩ := reconcileRequest_ok hstep
    exact (foldlM_invariant
      (fun s : Db × ImportBatch => s.1.WellFormed ∧ s.1.transactions.get? i = some t)
      (fun s _ s' hs h =>
        ⟨reconcileOne_wellFormed hs.1 h, reconcileOne_terminal hs.1 h hs.2 hterminal⟩)
      body.transitions (db, batch) (db₁, batch₁) ⟨hwf, ht⟩ hloop).2
  | _ => exact hr.elim

/-! ### Runs -/

/-- A request with an item that is refused at its turn changes nothing. -/
theorem serve_reconcile_of_refused {body : ReconcileBatchRequest} {batch : ImportBatch}
    {pre post : List ReconciliationTransition} {tr : ReconciliationTransition}
    {s : Db × ImportBatch} {e : ServiceError} (hbatch : db.importBatch? b org = some batch)
    (hsplit : body.transitions = pre ++ tr :: post)
    (hpre : pre.foldlM (reconcileOne org) (db, batch) = .ok s)
    (hrefused : reconcileOne org s tr = .error e) :
    serve Request.step db (.reconcile org b body) = db := by
  have hloop : body.transitions.foldlM (reconcileOne org) (db, batch) = .error e := by
    rw [hsplit, List.foldlM_append, bind_of_ok hpre, List.foldlM_cons, bind_of_error hrefused]
  refine (serve_cases _ _ _).resolve_left fun hok => ?_
  obtain ⟨_, hok⟩ := map_fst_eq_ok.mp hok
  obtain ⟨batch', db₁, batch₁, hbatch', hloop', -⟩ := reconcileRequest_ok hok
  rw [hbatch, Option.some_inj] at hbatch'
  rw [← hbatch', hloop] at hloop'
  exact absurd hloop' (by simp)

/-- The contract of the reconcile requests on a batch. The counters are the numbers of the rows of
the batch; the clamp changes them at no item of a request; rows in a terminal state stay as they
are in every further run; and a request with a refused item changes nothing. -/
structure Db.KeepsCounters (db : Db) (org b : ℕ) : Prop where
  counters : ∃ batch, db.importBatch? b org = some batch ∧
    batch.pendingCount = pendingRows db b ∧ batch.acceptedCount = acceptedRows db b
  unclamped : ∀ (body : ReconcileBatchRequest) batch pre tr post s s',
    db.importBatch? b org = some batch → body.transitions = pre ++ tr :: post →
    pre.foldlM (reconcileOne org) (db, batch) = .ok s → reconcileOne org s tr = .ok s' →
    ∃ tx, s.1.transaction? tr.transactionId org = some tx ∧
      MovesCounters s.2 s'.2 tx.reconciliationState tr.toState
  terminal : ∀ rs : List Request, (∀ r ∈ rs, r.OnBatch org b) → ∀ i t,
    db.transactions.get? i = some t → t.reconciliationState.Terminal →
    (serveAll Request.step db rs).transactions.get? i = some t
  atomic : ∀ (body : ReconcileBatchRequest) batch pre tr post s e,
    db.importBatch? b org = some batch → body.transitions = pre ++ tr :: post →
    pre.foldlM (reconcileOne org) (db, batch) = .ok s → reconcileOne org s tr = .error e →
    serve Request.step db (.reconcile org b body) = db

theorem Db.BatchCounted.keepsCounters (h : db.BatchCounted org b) : db.KeepsCounters org b where
  counters := by
    obtain ⟨batch, hbatch, hcounted⟩ := h.counted
    have hid := importBatch?_id hbatch
    exact ⟨batch, hbatch, hid ▸ hcounted.pending, hid ▸ hcounted.accepted⟩
  unclamped := by
    intro body batch pre tr post s s' hbatch _ hpre hone
    have hs := (h.start hbatch).loop hpre
    exact (reconcileOne_counted hs.wellFormed hs.counted hone).2
  terminal := by
    intro rs hrs i t ht hterminal
    have hadmits : Admits (fun _ r => r.OnBatch org b) Request.step db rs :=
      admits_of_forall (fun _ _ hr => hr) rs db hrs
    exact (serveAll_invariant
      (I := fun d : Db => d.WellFormed ∧ d.transactions.get? i = some t)
      (fun d r d' hd hr hstep => ⟨Request.step_wellFormed hd.1 hstep,
        Request.step_terminal hd.1 hr hstep hd.2 hterminal⟩) rs ⟨h.wellFormed, ht⟩ hadmits).2
  atomic := by
    intro body batch pre tr post s e hbatch hsplit hpre hrefused
    exact serve_reconcile_of_refused hbatch hsplit hpre hrefused

/-- Reconciliation counters and atomicity: after every run of reconcile requests on a batch opened
by an import, its counters are the numbers of its pending and accepted rows, the clamp changes no
counter, skipped and rejected rows stay, and a refused item undoes its whole request. -/
theorem keepsCounters_of_run (h : db.AfterImport org b) {rs : List Request}
    (hrs : ∀ r ∈ rs, r.OnBatch org b) : (serveAll Request.step db rs).KeepsCounters org b := by
  have hadmits : Admits (fun _ r => r.OnBatch org b) Request.step db rs :=
    admits_of_forall (fun _ _ hr => hr) rs db hrs
  exact (serveAll_invariant (fun _ _ _ hs hr hstep => Request.step_batchCounted hs hr hstep) rs
    h.batchCounted hadmits).keepsCounters

end

/-- A row is reopened and skipped, and the same row is named again in a request that fails. -/
def sampleReconcileRun : List Request :=
  [sampleTransition 1 .pendingReview,
    sampleReconcile [{ transactionId := 1, toState := .skipped },
      { transactionId := 2, toState := .accepted }] (by decide) (by decide),
    sampleTransition 1 .accepted]

theorem sampleReconcileRun_onBatch : ∀ r ∈ sampleReconcileRun, r.OnBatch 1 1 := by
  simp [sampleReconcileRun, sampleTransition, sampleReconcile, Request.OnBatch]

/-- The contract on the sample batch. -/
theorem keepsCounters_of_sampleReconcileRun :
    (serveAll Request.step sampleBatchDb sampleReconcileRun).KeepsCounters 1 1 :=
  keepsCounters_of_run sampleBatchDb_afterImport sampleReconcileRun_onBatch

end Pfv
