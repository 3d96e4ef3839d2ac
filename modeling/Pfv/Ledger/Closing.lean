import Pfv.Ledger.Counters

/-!
# Closing a batch

A batch is open while one of its rows is in a pending state, and the request that takes the last
row out of a pending state closes it. The service closes a batch but never opens it again, and it
closes it by a counter that the deletion of a row does not touch. So the contract holds in the runs
that leave no row of a closed batch reopened and delete no pending row of a batch.

## Main definitions

* `lastTarget`: the state a request moves a row to in the end.
* `Request.KeepsClosing`: the requests of the runs the contract holds in.
* `Db.ClosesBatches`: the contract.

## Main results

* `lastTarget_of_loop`: the states of the rows after the items of a request.
* `closesBatches_of_run`: the contract holds after every admitted run of imports, reconcile requests
  and deletions.
-/

namespace Pfv

/-! ### The contract -/

/-- The state the last item of a request about a row moves it to. -/
def lastTarget : List ReconciliationTransition → ℕ → Option ReconciliationState
  | [], _ => none
  | tr :: l, i => (lastTarget l i).or (if tr.transactionId = i then some tr.toState else none)

/-- A row of a batch in a pending state. -/
def Transaction.PendingInBatch (t : Transaction) : Prop :=
  t.importBatchId.isSome ∧ t.reconciliationState.isPending = true

instance (t : Transaction) : Decidable t.PendingInBatch := inferInstanceAs (Decidable (_ ∧ _))

/-- A ledger before the first import. -/
structure Db.BeforeImports (db : Db) : Prop where
  wellFormed : db.WellFormed
  importBatches : db.importBatches.rows = []

/-- An import; a reconcile request that, on a closed batch, leaves no row reopened; or a deletion
that finds no row in a pending state, among the given rows and those they link to. -/
def Request.KeepsClosing (db : Db) : Request → Prop
  | .executeImport .. => True
  | .reconcile org b body => ∀ batch, db.importBatch? b org = some batch → batch.status = .closed →
      ∀ i s, lastTarget body.transitions i = some s → s.isPending = false
  | .delete org id => ∀ t ∈ db.lockRows org (bulkDeletePreview db org [id]), ¬t.PendingInBatch
  | .bulkDelete org ids =>
      ∀ t ∈ db.lockRows org (bulkDeletePreview db org ids.eraseDups), ¬t.PendingInBatch
  | _ => False

/-- The contract of batch closing: a closed batch has no row in a pending state, and after every
accepted reconcile request a batch without such rows is closed. -/
structure Db.ClosesBatches (db : Db) : Prop where
  closed : ∀ b batch, db.importBatches.get? b = some batch → batch.status = .closed →
    ∀ t ∈ db.transactions.rows, t.importBatchId = some b → t.reconciliationState.isPending = false
  complete : ∀ org b body db', Request.step db (.reconcile org b body) = .ok db' →
    (∀ t ∈ db'.transactions.rows, t.importBatchId = some b →
      t.reconciliationState.isPending = false) →
    ∃ batch, db'.importBatches.get? b = some batch ∧ batch.status = .closed

section

variable {db db' : Db} {org b : ℕ}

theorem pendingRows_eq_zero :
    pendingRows db b = 0 ↔ ∀ t ∈ db.transactions.rows, t.importBatchId = some b →
      t.reconciliationState.isPending = false := by
  simp [pendingRows, List.countP_eq_zero]

/-- The counter of every batch is the number of its pending rows, and a closed batch has none. -/
structure Db.Closing (db : Db) : Prop where
  wellFormed : db.WellFormed
  pending : ∀ {b batch}, db.importBatches.get? b = some batch →
    batch.pendingCount = pendingRows db b
  closed : ∀ {b batch}, db.importBatches.get? b = some batch → batch.status = .closed →
    pendingRows db b = 0

/-- A change that keeps the batches and the numbers of their pending rows keeps the invariant. -/
theorem Db.Closing.of_eq (h : db.Closing) (hwf : db'.WellFormed)
    (hbatches : db'.importBatches = db.importBatches)
    (hrows : ∀ b, pendingRows db' b = pendingRows db b) : db'.Closing where
  wellFormed := hwf
  pending hb := by
    rw [hrows]
    exact h.pending (hbatches ▸ hb)
  closed hb hclosed := by
    rw [hrows]
    exact h.closed (hbatches ▸ hb) hclosed

theorem Db.BeforeImports.closing (h : db.BeforeImports) : db.Closing where
  wellFormed := h.wellFormed
  pending hb := by
    have := Table.get?_mem hb
    simp [h.importBatches] at this
  closed hb := by
    have := Table.get?_mem hb
    simp [h.importBatches] at this

/-! ### Imports -/

/-- Changes of rows that keep their batches, and the states of the rows of a batch, keep the number
of its pending rows. -/
theorem pendingRows_mapRows {f : Transaction → Transaction} {hf}
    (h : ∀ t ∈ db.transactions.rows, (f t).importBatchId = t.importBatchId ∧
      (t.importBatchId = some b → (f t).reconciliationState = t.reconciliationState)) :
    pendingRows { db with transactions := db.transactions.mapRows f hf } b = pendingRows db b := by
  rw [pendingRows, pendingRows, Table.mapRows, List.countP_map]
  refine List.countP_congr fun t ht => ?_
  rw [Function.comp_apply, (h t ht).1]
  by_cases hb : t.importBatchId = some b
  · rw [(h t ht).2 hb]
  · simp [hb]

/-- Writing back a row with its batch, and its state if it is in the batch, keeps the number of the
pending rows of a batch. -/
theorem pendingRows_putTransaction {t t' : Transaction} (ht : db.transactions.get? t'.id = some t)
    (hbatch : t'.importBatchId = t.importBatchId)
    (hstate : t.importBatchId = some b → t'.reconciliationState = t.reconciliationState) :
    pendingRows (db.putTransaction t') b = pendingRows db b := by
  refine pendingRows_mapRows fun u hu => ?_
  split_ifs with hid
  · obtain rfl : u = t := Table.get?_inj (Table.get?_of_mem hu) (Table.get?_self ht)
      (hid.trans (Table.get?_id ht).symm)
    exact ⟨hbatch, hstate⟩
  · exact ⟨rfl, fun _ => rfl⟩

/-- Stamping accepted rows with a batch moves no pending row. -/
theorem pendingRows_assignBatch {ids : List ℕ} {c : ℕ}
    (himported : ∀ id ∈ ids, Imported db org id) (hf) :
    pendingRows { db with
      transactions := db.transactions.mapRows (Transaction.assignBatch ids org c) hf } b =
      pendingRows db b := by
  rw [pendingRows, pendingRows, Table.mapRows, List.countP_map]
  refine List.countP_congr fun t ht => ?_
  rw [Function.comp_apply]
  unfold Transaction.assignBatch
  split_ifs with hids
  · obtain ⟨u, hu, -, hstate⟩ := (himported t.id hids.1).row
    obtain rfl : t = u := Table.get?_inj (Table.get?_of_mem ht) (Db.transaction?_self hu)
      (Db.transaction?_id hu).symm
    simp [hstate, ReconciliationState.isPending]
  · rfl

/-- Adding to the ledger without opening a batch keeps the numbers of pending rows. -/
theorem Db.Grows.pendingRows_eq {P : Transaction → Prop} (h : Db.Grows P db db')
    (hnext : db'.importBatches.next = db.importBatches.next) :
    pendingRows db' b = pendingRows db b := by
  cases h with
  | openAccount | addCategory | setTemplates => rfl
  | post t hrow hnew =>
    have hpost : (db.post t).transactions.rows =
        db.transactions.rows ++ [{ t with id := db.transactions.next }] := rfl
    rw [pendingRows, hpost, List.countP_append, List.countP_singleton]
    simp [hnew.batch, pendingRows]
  | link e i cat h =>
    have hincome : (db.putTransaction (e.linkTo i.id cat)).transactions.get? i.id = some i := by
      have hne : i.id ≠ (e.linkTo i.id cat).id := h.id_ne.symm
      rw [Db.get?_putTransaction_of_ne db hne, h.income_mem]
    calc pendingRows (db.linkRows e i cat) b
        = pendingRows (db.putTransaction (e.linkTo i.id cat)) b :=
          pendingRows_putTransaction hincome rfl fun _ => rfl
      _ = pendingRows db b := pendingRows_putTransaction h.expense_mem rfl fun _ => rfl
  | retemplate f hf h =>
    refine pendingRows_mapRows fun t ht => ?_
    rw [h t ht]
    exact ⟨rfl, fun _ => rfl⟩
  | openBatch => exact absurd hnext (Nat.succ_ne_self _)

theorem Db.GrowsMany.importBatches_next_le {P : Transaction → Prop} (h : db.GrowsMany P db') :
    db.importBatches.next ≤ db'.importBatches.next :=
  h.induct (I := fun d => db.importBatches.next ≤ d.importBatches.next)
    (fun hle hgrow => hle.trans hgrow.importBatches_next_le) le_rfl

theorem Db.GrowsMany.pendingRows_eq {P : Transaction → Prop} (h : db.GrowsMany P db')
    (hnext : db'.importBatches.next = db.importBatches.next) :
    pendingRows db' b = pendingRows db b := by
  induction h with
  | refl => rfl
  | @tail mid last hmany hgrow ih =>
    have hmid := GrowsMany.importBatches_next_le hmany
    have hlast := hgrow.importBatches_next_le
    rw [hgrow.pendingRows_eq (by omega), ih (by omega)]

/-- An import leaves the pending rows of every batch as they are; the batch it opens has none. -/
theorem executeImport_closing {body : ImportConfirmRequest} {userId : Option ℕ}
    {response : ImportConfirmResponse} (h : db.Closing)
    (himport : executeImport db org body userId = .ok (db', response)) : db'.Closing := by
  have hwf := (executeImport_grows (P := fun _ => True)
    (fun _ _ _ _ _ => trivial) himport).wellFormed
    h.wellFormed
  obtain ⟨s, hloop, ⟨-, rfl⟩ | ⟨user, -, hcreate⟩⟩ :=
    executeImport_ok (P := fun _ => True) (fun _ _ _ _ _ => trivial) himport
  · exact h.of_eq hwf hloop.batches fun b => hloop.grows.pendingRows_eq (by rw [hloop.batches])
  have hs : s.db.Closing := h.of_eq (hloop.grows.wellFormed h.wellFormed) hloop.batches fun b =>
    hloop.grows.pendingRows_eq (by rw [hloop.batches])
  obtain ⟨-, batch, hf, -, -, -, hpending, rfl⟩ := createImportBatch_ok hcreate
  have hrows : ∀ b, pendingRows { s.db with
      importBatches := s.db.importBatches.insert batch
      transactions := s.db.transactions.mapRows
        (Transaction.assignBatch s.importedTransactionIds org s.db.importBatches.next) hf } b =
      pendingRows s.db b := fun b => pendingRows_assignBatch hloop.imported hf
  -- No row was in the new batch before.
  have hfresh : pendingRows s.db s.db.importBatches.next = 0 := by
    refine pendingRows_eq_zero.mpr fun t ht hb => ?_
    exact absurd ((hs.wellFormed.row (Table.get?_of_mem ht)).batch _ hb).1 (lt_irrefl _)
  refine ⟨hwf, fun {b _} hb => ?_, fun {b _} hb hclosed => ?_⟩
  · rw [hrows]
    rw [Table.get?_insert] at hb
    split_ifs at hb with hnew
    · rw [← Option.some_inj.mp hb, hnew, hfresh]
      exact hpending
    · exact hs.pending hb
  · rw [hrows]
    rw [Table.get?_insert] at hb
    split_ifs at hb with hnew
    · rw [hnew, hfresh]
    · exact hs.closed hb hclosed

/-! ### Deletions -/

/-- Removing rows that are not pending keeps the numbers of pending rows. -/
theorem pendingRows_deleteTransactions {ids : List ℕ}
    (h : ∀ t ∈ db.transactions.rows, t.id ∈ ids → ¬t.PendingInBatch) :
    pendingRows (db.deleteTransactions ids) b = pendingRows db b := by
  have hrows : (db.deleteTransactions ids).transactions.rows =
      (db.transactions.rows.filter (·.id ∉ ids)).map (Db.unlinkFrom ids) := rfl
  rw [pendingRows, pendingRows, hrows, List.countP_map, List.countP_filter]
  refine List.countP_congr fun t ht => ?_
  rw [Function.comp_apply, Db.unlinkFrom_eq]
  have := h t ht
  unfold Transaction.PendingInBatch at this
  by_cases hid : t.id ∈ ids
  · cases hb : t.importBatchId <;> simp_all
  · simp [hid]

/-- The rows removed by a single delete are among those its preview finds. -/
theorem mem_lockRows_of_delete {id : ℕ} {tx t : Transaction}
    (htx : db.transaction? id org = some tx) (ht : t ∈ db.transactions.rows)
    (hid : t.id ∈ tx.id :: (tx.linkedTransactionId.bind
      fun l => db.transaction? l org).toList.map (·.id)) :
    t ∈ db.lockRows org (bulkDeletePreview db org [id]) := by
  have htxid := Db.transaction?_id htx
  have htxmem : tx ∈ db.lockRows org [id] :=
    Db.mem_lockRows.mpr
      ⟨Db.transaction?_self htx, by simp [htxid], (Db.transaction?_eq_some.mp htx).2⟩
  rcases List.mem_cons.mp hid with hid | hid
  · obtain rfl : t = tx := Table.get?_inj (Table.get?_of_mem ht) (Db.transaction?_self htx) hid
    refine Db.mem_lockRows.mpr ⟨Db.transaction?_self htx, ?_, (Db.transaction?_eq_some.mp htx).2⟩
    exact List.mem_append_left _ (List.mem_map_of_mem htxmem)
  · obtain ⟨p, hp, hpid⟩ := List.mem_map.mp hid
    rw [Option.mem_toList, Option.bind_eq_some_iff] at hp
    obtain ⟨l, hl, hp⟩ := hp
    obtain rfl : t = p := Table.get?_inj (Table.get?_of_mem ht) (Db.transaction?_self hp) hpid.symm
    refine Db.mem_lockRows.mpr ⟨Db.transaction?_self hp, ?_, (Db.transaction?_eq_some.mp hp).2⟩
    refine List.mem_append_right _ (List.mem_filterMap.mpr ⟨tx, htxmem, ?_⟩)
    rw [hl, Db.transaction?_id hp]

theorem deleteTransaction_closing {id : ℕ} (h : db.Closing)
    (hr : ∀ t ∈ db.lockRows org (bulkDeletePreview db org [id]), ¬t.PendingInBatch)
    (hdelete : deleteTransaction db org id = .ok db') : db'.Closing := by
  obtain ⟨tx, htx, -, rfl⟩ := deleteTransaction_ok hdelete
  refine h.of_eq (h.wellFormed.deleteCascade _ _) ?_ fun b => ?_
  · unfold Db.deleteCascade
    split
    · rw [Db.remove, Db.deleteTransactions_importBatches, Db.revertAll_eq]
    · split_ifs <;> rfl
  · have hcascade := db.deleteCascade_transactions tx
      (tx.linkedTransactionId.bind fun l => db.transaction? l org)
    rw [pendingRows, hcascade]
    exact pendingRows_deleteTransactions fun t ht hid => hr t (mem_lockRows_of_delete htx ht hid)

theorem bulkDelete_closing {ids : List ℕ} {n : ℕ} {skipped : List ℕ} (h : db.Closing)
    (hr : ∀ t ∈ db.lockRows org (bulkDeletePreview db org ids.eraseDups), ¬t.PendingInBatch)
    (hdelete : bulkDeleteTransactions db org ids = .ok (db', n, skipped)) : db'.Closing := by
  rcases bulkDeleteTransactions_ok hdelete with rfl | rfl
  · exact h
  refine h.of_eq (h.wellFormed.remove _) ?_ fun b => ?_
  · rw [Db.remove, Db.deleteTransactions_importBatches, Db.revertAll_eq]
  · rw [pendingRows, Db.remove_transactions]
    refine pendingRows_deleteTransactions fun t ht hid => ?_
    obtain ⟨u, hu, hid⟩ := List.mem_map.mp hid
    obtain ⟨hget, hmem, horg, -⟩ := Db.mem_bulkRows.mp hu
    obtain rfl : t = u := Table.get?_inj (Table.get?_of_mem ht) hget hid.symm
    exact hr t (Db.mem_lockRows.mpr ⟨hget, hmem, horg⟩)

/-! ### Reconcile requests -/

/-- An item leaves the rows of other batches alone and moves only the state of its own row. -/
theorem reconcileOne_state {s s' : Db × ImportBatch} {tr : ReconciliationTransition}
    (hwf : s.1.WellFormed) (h : reconcileOne org s tr = .ok s') {i : ℕ} {t' : Transaction}
    (ht' : s'.1.transactions.get? i = some t') :
    ∃ t, s.1.transactions.get? i = some t ∧ t'.importBatchId = t.importBatchId ∧
      t'.reconciliationState =
        if tr.transactionId = i then tr.toState else t.reconciliationState := by
  obtain ⟨tx, htx, -, ⟨hself, rfl⟩ | ⟨-, -, tx', htr, rfl, -⟩⟩ :=
    reconcileOne_ok (fun tx htx hb => hwf.manual_of_batch htx hb) h
  · refine ⟨t', ht', rfl, ?_⟩
    split_ifs with hid
    · rw [← hid, (Db.transaction?_eq_some.mp htx).1, Option.some_inj] at ht'
      rw [← ht', hself]
    · rfl
  · have htxid := Db.transaction?_id htx
    rw [Db.get?_restate, htr.id_eq, htxid] at ht'
    split_ifs at ht' with hid
    · subst hid
      rw [(Db.transaction?_eq_some.mp htx).1, Option.map_some, Option.some_inj] at ht'
      subst ht'
      exact ⟨tx, (Db.transaction?_eq_some.mp htx).1, htr.batch_eq, by rw [if_pos rfl, htr.state_eq]⟩
    · exact ⟨t', ht', rfl, by rw [if_neg (Ne.symm hid)]⟩

/-- After the items of a request a row is in the state its last item moves it to. -/
theorem lastTarget_of_loop : ∀ {trs : List ReconciliationTransition} {s s' : Db × ImportBatch},
    s.1.WellFormed → trs.foldlM (reconcileOne org) s = .ok s' → ∀ {i : ℕ} {t' : Transaction},
    s'.1.transactions.get? i = some t' →
    ∃ t, s.1.transactions.get? i = some t ∧ t'.importBatchId = t.importBatchId ∧
      t'.reconciliationState = (lastTarget trs i).getD t.reconciliationState
  | [], s, s', _, h, i, t', ht' => by
      rw [List.foldlM_nil, pure_eq_ok] at h
      exact ⟨t', h ▸ ht', rfl, rfl⟩
  | tr :: trs, s, s', hwf, h, i, t', ht' => by
      rw [List.foldlM_cons, bind_eq_ok] at h
      obtain ⟨m, hone, hrest⟩ := h
      obtain ⟨u, hu, hbatch, hstate⟩ :=
        lastTarget_of_loop (reconcileOne_wellFormed hwf hone) hrest ht'
      obtain ⟨t, ht, hbatch', hstate'⟩ := reconcileOne_state hwf hone hu
      refine ⟨t, ht, hbatch.trans hbatch', ?_⟩
      rw [hstate, hstate', lastTarget]
      cases lastTarget trs i with
      | some s => rfl
      | none =>
        rw [Option.none_or]
        split_ifs <;> rfl

/-- The state of the loop of a request: the pending counter in memory is right, the batches are
those of the start, and so are the pending rows of the other batches. -/
structure ClosingLoop (start s : Db × ImportBatch) : Prop where
  wellFormed : s.1.WellFormed
  pending : s.2.pendingCount = pendingRows s.1 s.2.id
  other : ∀ c, c ≠ start.2.id → pendingRows s.1 c = pendingRows start.1 c
  id_eq : s.2.id = start.2.id
  status_eq : s.2.status = start.2.status
  batches_eq : s.1.importBatches = start.1.importBatches

theorem ClosingLoop.step {start s s' : Db × ImportBatch} {tr : ReconciliationTransition}
    (hs : ClosingLoop start s) (h : reconcileOne org s tr = .ok s') : ClosingLoop start s' := by
  have hwf := reconcileOne_wellFormed hs.wellFormed h
  have hpending := (reconcileOne_pendingCount hs.wellFormed hs.pending h).1
  obtain ⟨tx, htx, hb, ⟨-, rfl⟩ | ⟨-, -, tx', htr, rfl, -⟩⟩ :=
    reconcileOne_ok (fun tx htx hb => hs.wellFormed.manual_of_batch htx hb) h
  · exact hs
  refine ⟨hwf, hpending, fun c hc => ?_, hs.id_eq, hs.status_eq, hs.batches_eq⟩
  rw [← hs.other c hc]
  have hget := Db.transaction?_self htx
  refine pendingRows_putTransaction (htr.id_eq ▸ hget) htr.batch_eq fun hbc => ?_
  rw [hb, Option.some_inj, hs.id_eq] at hbc
  exact absurd hbc.symm hc

theorem ClosingLoop.loop {start s s' : Db × ImportBatch} {trs : List ReconciliationTransition}
    (hs : ClosingLoop start s) (h : trs.foldlM (reconcileOne org) s = .ok s') :
    ClosingLoop start s' :=
  foldlM_invariant (ClosingLoop start) (fun _ _ _ hs h => hs.step h) trs s s' hs h

/-- Closing a batch by a right counter: it is closed when it was or has no pending row, and only
then. -/
theorem closeBatchIfComplete_spec {batch : ImportBatch}
    (h : batch.pendingCount = pendingRows db batch.id) :
    (closeBatchIfComplete db batch).pendingCount = pendingRows db batch.id ∧
      ((closeBatchIfComplete db batch).status = .closed ↔
        batch.status = .closed ∨ pendingRows db batch.id = 0) := by
  unfold closeBatchIfComplete
  split_ifs with hclosed hcount hrows
  · exact ⟨h, iff_of_true hclosed (.inl hclosed)⟩
  · refine ⟨h, iff_of_false hclosed ?_⟩
    rintro (hclosed' | hzero)
    · exact hclosed hclosed'
    · omega
  · exact ⟨rfl, iff_of_false hclosed (by simp [hclosed]; omega)⟩
  · exact ⟨h, iff_of_true rfl (.inr (by omega))⟩

/-- The batches after a request: the batch of the request with its counter and status, the others
as they were. -/
theorem reconcileRequest_closing {body : ReconcileBatchRequest} {response : ReconcileBatchResponse}
    (h : db.Closing) (hrequest : reconcileRequest db org b body = .ok (db', response)) :
    ∃ batch batch', db.importBatch? b org = some batch ∧
      db'.importBatches.get? b = some batch' ∧
      batch'.pendingCount = pendingRows db' b ∧
      (batch'.status = .closed ↔ batch.status = .closed ∨ pendingRows db' b = 0) ∧
      ∀ c, c ≠ b → db'.importBatches.get? c = db.importBatches.get? c ∧
        pendingRows db' c = pendingRows db c := by
  obtain ⟨batch, db₁, batch₁, hbatch, hloop, rfl⟩ := reconcileRequest_ok hrequest
  have hget := (Db.importBatch?_eq_some.mp hbatch).1
  have hid := Db.importBatch?_id hbatch
  have hstart : ClosingLoop (db, batch) (db, batch) :=
    ⟨h.wellFormed, hid.symm ▸ h.pending hget, fun _ _ => rfl, rfl, rfl, rfl⟩
  have hs := hstart.loop hloop
  have hid₁ : batch₁.id = b := hs.id_eq.trans hid
  have hspec := closeBatchIfComplete_spec hs.pending
  rw [hid₁, hs.status_eq] at hspec
  have hclose : (closeBatchIfComplete db₁ batch₁).id = b := by
    rw [closeBatchIfComplete_id, hid₁]
  refine ⟨batch, closeBatchIfComplete db₁ batch₁, hbatch, ?_, hspec.1, hspec.2, fun c hc =>
    ⟨?_, ?_⟩⟩
  · have hmem : db₁.importBatches.get? (Row.id (closeBatchIfComplete db₁ batch₁)) = some batch := by
      rw [ImportBatch.row_id, hclose, hs.batches_eq]
      exact hget
    have hput := Table.get?_put_self hmem
    rwa [ImportBatch.row_id, hclose] at hput
  · have hne : c ≠ Row.id (closeBatchIfComplete db₁ batch₁) := by
      rw [ImportBatch.row_id, hclose]
      exact hc
    rw [← hs.batches_eq]
    exact Table.get?_put_of_ne _ hne
  · exact hs.other c (by rw [hid]; exact hc)

/-! ### Runs -/

/-- An accepted admitted request keeps the invariant. -/
theorem Request.step_closing {r : Request} (h : db.Closing) (hr : r.KeepsClosing db)
    (hstep : Request.step db r = .ok db') : db'.Closing := by
  cases r with
  | executeImport org body user =>
    obtain ⟨_, hstep⟩ := map_fst_eq_ok.mp hstep
    exact executeImport_closing h hstep
  | delete org id => exact deleteTransaction_closing h hr hstep
  | bulkDelete org ids =>
    obtain ⟨⟨n, skipped⟩, hstep⟩ := map_fst_eq_ok.mp hstep
    exact bulkDelete_closing h hr hstep
  | reconcile org b body =>
    have hwf := Request.step_wellFormed h.wellFormed hstep
    obtain ⟨_, hrequest⟩ := map_fst_eq_ok.mp hstep
    obtain ⟨batch, batch', hbatch, hget, hpending, hstatus, hother⟩ :=
      reconcileRequest_closing h hrequest
    refine ⟨hwf, fun {c batchc} hc => ?_, fun {c batchc} hc hclosed => ?_⟩
    · by_cases hcb : c = b
      · rw [hcb, hget, Option.some_inj] at hc
        rw [← hc, hcb, hpending]
      · rw [(hother c hcb).1] at hc
        rw [(hother c hcb).2]
        exact h.pending hc
    · by_cases hcb : c = b
      · rw [hcb, hget, Option.some_inj] at hc
        rw [hcb]
        rcases hstatus.mp (hc ▸ hclosed) with hwas | hzero
        · -- The batch was closed: no row was pending, and the request leaves none reopened.
          obtain ⟨batch₀, db₁, batch₁, hbatch₀, hloop, rfl⟩ := reconcileRequest_ok hrequest
          rw [hbatch, Option.some_inj] at hbatch₀
          subst hbatch₀
          refine pendingRows_eq_zero.mpr fun t ht hb => ?_
          obtain ⟨u, hu, hbatch_eq, hstate⟩ :=
            lastTarget_of_loop h.wellFormed hloop (Table.get?_of_mem ht)
          rw [hstate]
          cases hlast : lastTarget body.transitions (Row.id t) with
          | some s => exact hr batch hbatch hwas _ s hlast
          | none =>
            have hzero := h.closed (Db.importBatch?_eq_some.mp hbatch).1 hwas
            exact pendingRows_eq_zero.mp hzero u (Table.get?_mem hu) (hbatch_eq ▸ hb)
        · exact hzero
      · rw [(hother c hcb).1] at hc
        rw [(hother c hcb).2]
        exact h.closed hc hclosed
  | _ => exact hr.elim

theorem Db.Closing.closesBatches (h : db.Closing) : db.ClosesBatches where
  closed b batch hb hclosed := pendingRows_eq_zero.mp (h.closed hb hclosed)
  complete org b body db' hstep hnone := by
    obtain ⟨_, hrequest⟩ := map_fst_eq_ok.mp hstep
    obtain ⟨batch, batch', -, hget, -, hstatus, -⟩ := reconcileRequest_closing h hrequest
    exact ⟨batch', hget, hstatus.mpr (.inr (pendingRows_eq_zero.mpr hnone))⟩

/-- Batch closing: in every run of imports, reconcile requests and deletions that leaves no row of a
closed batch reopened and deletes no pending row of a batch, a closed batch has no pending row, and
a batch without pending rows is closed after every accepted reconcile request. -/
theorem closesBatches_of_run (hstart : db.BeforeImports) {rs : List Request}
    (hrs : Admits (fun d r => r.KeepsClosing d) Request.step db rs) :
    (serveAll Request.step db rs).ClosesBatches :=
  (serveAll_invariant (fun _ _ _ hs hr hstep => Request.step_closing hs hr hstep) rs
    hstart.closing hrs).closesBatches

end

/-! ### Sample runs -/

/-- A ledger with one account. -/
def sampleOpenDb : Db :=
  serveAll Request.step sampleDb [sampleAccount "Checking"]

theorem sampleOpenDb_beforeImports : sampleOpenDb.BeforeImports where
  wellFormed := by
    have hreach : sampleOpenDb.ReachableBy fun _ => True :=
      ⟨sampleDb, _, sampleDb_seeded, fun _ _ => trivial, rfl⟩
    exact hreach.wellFormed
  importBatches := by decide +kernel

/-- Two rows are imported, one is reopened and skipped, which closes the batch, and deleted. -/
def sampleClosingRun : List Request :=
  [sampleImport 1 [.expense, .income],
    sampleTransition 1 .pendingReview,
    sampleTransition 1 .skipped,
    .delete 1 1]

theorem sampleClosingRun_admits :
    Admits (fun d r => r.KeepsClosing d) Request.step sampleOpenDb sampleClosingRun := by
  refine ⟨trivial, fun batch hbatch hclosed => ?_, fun _ _ _ i s hs => ?_, ?_, trivial⟩
  · have hopen : ((serve Request.step sampleOpenDb
        (sampleImport 1 [.expense, .income])).importBatch? 1 1).map (·.status) = some .opened := by
      decide +kernel
    rw [hbatch, Option.map_some, hclosed] at hopen
    exact absurd hopen (by simp)
  · simp only [lastTarget, Option.none_or] at hs
    split_ifs at hs
    rw [← Option.some_inj.mp hs]
    rfl
  · show ∀ t ∈ _, ¬Transaction.PendingInBatch t
    decide +kernel

/-- The contract after the sample run. -/
theorem closesBatches_of_sampleClosingRun :
    (serveAll Request.step sampleOpenDb sampleClosingRun).ClosesBatches :=
  closesBatches_of_run sampleOpenDb_beforeImports sampleClosingRun_admits

/-- An accepted row is accepted again, which closes the batch, and then reopened. -/
def sampleReopenRun : List Request :=
  [sampleImport 1 [.expense, .income],
    sampleTransition 1 .accepted,
    sampleTransition 1 .pendingReview]

/-- A row is reopened and deleted while the batch is open. -/
def sampleStuckRun : List Request :=
  [sampleImport 1 [.expense, .income],
    sampleTransition 1 .pendingReview,
    .delete 1 1]

/-- The other row is accepted again. -/
def sampleAcceptOther : Request :=
  sampleTransition 2 .accepted

/-- The first run leaves a closed batch with a pending row. After the second, accepting the other
row leaves the batch open though none of its rows is pending. -/
theorem not_closesBatches_of_sampleRuns :
    ¬(serveAll Request.step sampleOpenDb sampleReopenRun).ClosesBatches ∧
      ¬(serveAll Request.step sampleOpenDb sampleStuckRun).ClosesBatches := by
  constructor
  · intro h
    have hclosed : ((serveAll Request.step sampleOpenDb sampleReopenRun).importBatches.get? 1).map
        (·.status) = some .closed := by
      decide +kernel
    have hpending : ((serveAll Request.step sampleOpenDb sampleReopenRun).transactions.get? 1).map
        (fun t => (t.importBatchId, t.reconciliationState)) = some (some 1, .pendingReview) := by
      decide +kernel
    obtain ⟨batch, hbatch, hstatus⟩ := Option.map_eq_some_iff.mp hclosed
    obtain ⟨t, ht, hrow⟩ := Option.map_eq_some_iff.mp hpending
    rw [Prod.mk.injEq] at hrow
    have := h.closed 1 batch hbatch hstatus t (Table.get?_mem ht) hrow.1
    rw [hrow.2] at this
    exact absurd this (by decide)
  · intro h
    have hstep : Request.step (serveAll Request.step sampleOpenDb sampleStuckRun)
        sampleAcceptOther = .ok _ := step_eq_ok_serve (by decide +kernel)
    have hnone : ∀ t ∈ (serve Request.step (serveAll Request.step sampleOpenDb sampleStuckRun)
        sampleAcceptOther).transactions.rows, t.importBatchId = some 1 →
        t.reconciliationState.isPending = false := by
      decide +kernel
    have hopen : ((serve Request.step (serveAll Request.step sampleOpenDb sampleStuckRun)
        sampleAcceptOther).importBatches.get? 1).map (·.status) = some .opened := by
      decide +kernel
    obtain ⟨batch, hbatch, hclosed⟩ := h.complete 1 1 _ _ hstep hnone
    rw [hbatch, Option.map_some, hclosed] at hopen
    exact absurd hopen (by simp)

end Pfv
