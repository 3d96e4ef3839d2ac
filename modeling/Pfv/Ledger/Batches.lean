import Pfv.Ledger.Requests

/-!
# Batches of imported rows

A batch opens with the rows of an import, all of them accepted. This file has the databases in
which a batch was just opened and the numbers of rows of a batch in a set of states.

## Main definitions

* `Db.AfterImport org b`: a database in which a batch of imported rows was just opened.
* `Request.OnBatch org b`: the reconcile requests on a batch.
* `Db.stateCount`, `acceptedRows`: numbers of rows of a batch.

## Main results

* `afterImport_of_executeImport`: an import opens a batch.
* `Db.AfterImport.freshBatch`: the counters of a batch that was just opened.
* `Db.stateCount_putTransaction`: how rewriting a row moves the numbers.
-/

namespace Pfv

/-! ### Opening a batch -/

theorem Db.importBatch?_eq_some {db : Db} {b org : ℕ} {batch : ImportBatch} :
    db.importBatch? b org = some batch ↔
      db.importBatches.get? b = some batch ∧ batch.orgId = org := by
  simp [Db.importBatch?, Option.filter_eq_some_iff]

theorem Db.importBatch?_id {db : Db} {b org : ℕ} {batch : ImportBatch}
    (h : db.importBatch? b org = some batch) : batch.id = b :=
  Table.get?_id (importBatch?_eq_some.mp h).1

/-- A database in which a batch of distinct imported rows was just opened. -/
def Db.AfterImport (org b : ℕ) (db' : Db) : Prop :=
  ∃ (db : Db) (userId accountId : ℕ) (format : ImportSourceFormat) (fileName : String)
    (ids : List ℕ), db.WellFormed ∧ ids.Nodup ∧ (∀ id ∈ ids, Imported db org id) ∧
      createImportBatch db org userId accountId format fileName ids = .ok (db', b)

/-- An import that reports a batch has opened it. -/
theorem afterImport_of_executeImport {db db' : Db} {org b : ℕ} {body : ImportConfirmRequest}
    {userId : Option ℕ} {response : ImportConfirmResponse} (hwf : db.WellFormed)
    (h : executeImport db org body userId = .ok (db', response))
    (hb : response.importId = some b) : db'.AfterImport org b := by
  obtain ⟨s, hloop, ⟨hnone, -⟩ | ⟨user, hsome, hcreate⟩⟩ :=
    executeImport_ok (P := fun _ => True) (fun _ _ _ _ _ => trivial) h
  · exact absurd (hnone.symm.trans hb) (by simp)
  · obtain rfl : s.db.importBatches.next = b := by
      rw [← Option.some_inj, ← hsome, hb]
    exact ⟨s.db, user, _, _, _, _, hloop.grows.wellFormed hwf, hloop.nodup, hloop.imported, hcreate⟩

/-- The reconcile requests on a batch of an organisation. -/
def Request.OnBatch (org b : ℕ) : Request → Prop
  | .reconcile org' batchId _ => org' = org ∧ batchId = b
  | _ => False

/-! ### Counting rows -/

/-- The number of rows of a batch whose state satisfies `p`. -/
def Db.stateCount (db : Db) (b : ℕ) (p : ReconciliationState → Bool) : ℕ :=
  db.transactions.rows.countP fun t => t.importBatchId = some b ∧ p t.reconciliationState = true

/-- The number of rows of a batch in the accepted state. -/
def acceptedRows (db : Db) (b : ℕ) : ℕ :=
  db.transactions.rows.countP fun t =>
    t.importBatchId = some b ∧ t.reconciliationState = .accepted

theorem pendingRows_eq (db : Db) (b : ℕ) :
    pendingRows db b = db.stateCount b ReconciliationState.isPending := rfl

theorem acceptedRows_eq (db : Db) (b : ℕ) :
    acceptedRows db b = db.stateCount b fun s => decide (s = .accepted) := by
  simp [acceptedRows, Db.stateCount]

namespace Db

variable {db db' : Db} {org b : ℕ} {p : ReconciliationState → Bool}

/-- A number of rows as a sum over the rows of the batch. -/
theorem stateCount_eq_sumOver (db : Db) (b : ℕ) (p : ReconciliationState → Bool) :
    (db.stateCount b p : ℤ) = db.transactions.sumOver (·.importBatchId)
      (fun t => if p t.reconciliationState = true then 1 else 0) (some b) := by
  unfold stateCount Table.sumOver
  induction db.transactions.rows with
  | nil => rfl
  | cons t l ih =>
    rw [List.countP_cons, Nat.cast_add, ih, List.map_cons, List.sum_cons, add_comm]
    by_cases hb : t.importBatchId = some b <;> by_cases hp : p t.reconciliationState = true <;>
      simp [hb, hp]

/-- Rewriting a row of a batch takes the old version out of the count and puts the new one in. -/
theorem stateCount_putTransaction {t t' : Transaction} (ht : db.transactions.get? t'.id = some t)
    (hb : t.importBatchId = some b) (hb' : t'.importBatchId = some b) :
    ((db.putTransaction t').stateCount b p : ℤ) = db.stateCount b p -
      (if p t.reconciliationState = true then 1 else 0) +
        if p t'.reconciliationState = true then 1 else 0 := by
  have hput := Table.sumOver_put (b := t') ht (·.importBatchId)
    (fun t => if p t.reconciliationState = true then (1 : ℤ) else 0) (some b)
  rw [if_pos hb, if_pos hb'] at hput
  rw [stateCount_eq_sumOver, stateCount_eq_sumOver]
  exact hput

/-- A row of a batch is counted. -/
theorem one_le_stateCount {i : ℕ} {t : Transaction} (ht : db.transactions.get? i = some t)
    (hb : t.importBatchId = some b) (hp : p t.reconciliationState = true) :
    1 ≤ db.stateCount b p :=
  List.countP_pos_iff.mpr ⟨t, Table.get?_mem ht, by simp [hb, hp]⟩

/-! ### A batch that was just opened -/

/-- The rows of a batch that was just opened are the imported ones. -/
theorem count_assignBatch {ids : List ℕ} (hwf : db.WellFormed) (hnodup : ids.Nodup)
    (himported : ∀ id ∈ ids, Imported db org id) (hf) :
    ({ db with
      transactions := db.transactions.mapRows
        (Transaction.assignBatch ids org db.importBatches.next) hf } : Db).transactions.rows.countP
      (fun t => t.importBatchId = some db.importBatches.next ∧
        t.reconciliationState = .accepted) = ids.length := by
  have hrow : ∀ t ∈ db.transactions.rows, t.id ∈ ids →
      t.orgId = org ∧ t.reconciliationState = .accepted := by
    intro t ht hid
    obtain ⟨u, hu, -, hstate⟩ := (himported t.id hid).row
    obtain ⟨hget, horg⟩ := transaction?_eq_some.mp hu
    obtain rfl : t = u := Table.get?_inj (Table.get?_of_mem ht) (Table.get?_self hget)
      (Table.get?_id hget).symm
    exact ⟨horg, hstate⟩
  -- The rows stamped with the batch are those with the given ids.
  have hrows : ∀ t ∈ db.transactions.rows,
      ((t.assignBatch ids org db.importBatches.next).importBatchId = some db.importBatches.next ∧
        (t.assignBatch ids org db.importBatches.next).reconciliationState = .accepted) ↔
        t.id ∈ ids := by
    intro t ht
    unfold Transaction.assignBatch
    split_ifs with hids
    · exact iff_of_true ⟨rfl, (hrow t ht hids.1).2⟩ hids.1
    · refine iff_of_false (fun h => ?_) fun hid => hids ⟨hid, (hrow t ht hid).1⟩
      exact absurd (((hwf.row (Table.get?_of_mem ht)).batch _ h.1).1) (lt_irrefl _)
  have hcount : (db.transactions.mapRows (Transaction.assignBatch ids org db.importBatches.next)
      hf).rows.countP (fun t => t.importBatchId = some db.importBatches.next ∧
        t.reconciliationState = .accepted) =
      db.transactions.rows.countP fun t => t.id ∈ ids := by
    rw [Table.mapRows, List.countP_map]
    exact List.countP_congr fun t ht => by simpa using hrows t ht
  have hperm : ((db.transactions.rows.filter fun t => t.id ∈ ids).map (·.id)).Perm ids := by
    refine (List.perm_ext_iff_of_nodup
      ((List.filter_sublist.map _).nodup db.transactions.nodup) hnodup).mpr fun i => ?_
    simp only [List.mem_map, List.mem_filter, decide_eq_true_eq]
    constructor
    · rintro ⟨t, ⟨-, hid⟩, rfl⟩
      exact hid
    · intro hi
      obtain ⟨t, ht, -⟩ := (himported i hi).row
      obtain rfl := transaction?_id ht
      exact ⟨t, ⟨Table.get?_mem (transaction?_eq_some.mp ht).1, hi⟩, rfl⟩
  exact hcount.trans (by rw [List.countP_eq_length_filter, ← hperm.length_eq, List.length_map])

/-- A batch that was just opened: it is a batch of the organisation, all its rows are accepted, and
its counters say so. -/
structure FreshBatch (db : Db) (org b : ℕ) (batch : ImportBatch) : Prop where
  wellFormed : db.WellFormed
  batch_mem : db.importBatch? b org = some batch
  accepted_eq : batch.acceptedCount = acceptedRows db b
  pending_eq : batch.pendingCount = 0
  accepted : ∀ {i t}, db.transactions.get? i = some t → t.importBatchId = some b →
    t.reconciliationState = .accepted

theorem AfterImport.freshBatch (h : db.AfterImport org b) : ∃ batch, db.FreshBatch org b batch := by
  obtain ⟨db₀, user, account, format, fileName, ids, hwf, hnodup, himported, hcreate⟩ := h
  have hwf' := (createImportBatch_grows (P := fun _ => True) himported hcreate).wellFormed hwf
  obtain ⟨rfl, batch, hf, horg, -, haccepted, hpending, rfl⟩ := createImportBatch_ok hcreate
  refine ⟨{ batch with id := db₀.importBatches.next }, hwf', ?_, ?_, hpending, ?_⟩
  · exact Option.filter_eq_some_iff.mpr ⟨Table.get?_insert_next _ _, by simpa using horg⟩
  · rw [acceptedRows, count_assignBatch hwf hnodup himported hf]
    exact haccepted
  · intro i t ht hb
    rw [Table.get?_mapRows, Option.map_eq_some_iff] at ht
    obtain ⟨u, hu, rfl⟩ := ht
    unfold Transaction.assignBatch at hb ⊢
    split_ifs with hids
    · obtain ⟨v, hv, -, hstate⟩ := (himported u.id hids.1).row
      rw [Table.get?_inj (Table.get?_self hu) (Table.get?_self (transaction?_eq_some.mp hv).1)
        (transaction?_id hv).symm]
      exact hstate
    · rw [if_neg hids] at hb
      exact absurd (((hwf.row hu).batch _ hb).1) (lt_irrefl _)

/-- No row of a batch that was just opened is pending. -/
theorem FreshBatch.pendingRows_eq_zero {batch : ImportBatch} (h : db.FreshBatch org b batch) :
    pendingRows db b = 0 := by
  refine List.countP_eq_zero.mpr fun t ht => ?_
  have hstate := h.accepted (Table.get?_of_mem ht)
  simp only [decide_eq_true_eq, not_and]
  intro hb
  simp [hstate hb, ReconciliationState.isPending]

end Db

/-! ### A sample batch -/

/-- An import request that reports a batch leaves a database in which it was just opened. -/
theorem afterImport_of_serve {db : Db} {org b : ℕ} {body : ImportConfirmRequest}
    {userId : Option ℕ} (hwf : db.WellFormed)
    (h : (executeImport db org body userId).toOption.bind (·.2.importId) = some b) :
    (serve Request.step db (.executeImport org body userId)).AfterImport org b := by
  cases himport : executeImport db org body userId with
  | error e =>
    rw [himport] at h
    exact absurd h (by simp [Except.toOption])
  | ok p =>
    rw [himport] at h
    rw [serve_of_ok (map_fst_eq_ok.mpr ⟨p.2, himport⟩)]
    exact afterImport_of_executeImport hwf himport h

/-- Two imported expenses and one imported income of 10.00 each. -/
def sampleBatchDb : Db :=
  serveAll Request.step sampleDb
    [sampleAccount "Checking", sampleImport 1 [.expense, .expense, .income]]

theorem sampleBatchDb_afterImport : sampleBatchDb.AfterImport 1 1 := by
  have hreach : (serveAll Request.step sampleDb [sampleAccount "Checking"]).ReachableBy
      fun _ => True :=
    ⟨sampleDb, _, sampleDb_seeded, fun _ _ => trivial, rfl⟩
  exact afterImport_of_serve hreach.wellFormed (by decide +kernel)

end Pfv
