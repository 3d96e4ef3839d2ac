import Pfv.Ledger.PairRaces

/-!
# Serial runs behind interleaved requests

A request that decides from an unlocked read and writes behind locks does, when nothing it has read
was changed in between, what it would do at once. An update, a pairing and a conversion check again
what they rely on, so that they do so whenever they commit; a delete, a bulk delete and an unpair do
so when they find the links as they have read them. Then the ledger after an interleaving, with all
rows, links, categories and balances, is that of the committed requests served one after another.

## Main definitions

* `PairPlan.toRequest`: the request of a plan.
* `PairPlan.Current`: the locked rows are those the request would lock now.

## Main results

* `PairPlan.step_of_write`: a current commit does what the serial operation does.
* `serial_of_interleaving`: interleavings with current commits are serial runs.
-/

namespace Pfv

/-- The request of a plan. -/
def PairPlan.toRequest : PairPlan → Request
  | .update org id body today _ => .update org id body today
  | .delete org id _ => .delete org id
  | .bulkDelete org requested _ => .bulkDelete org requested
  | .pair org e i recategorize cat => .pair org e i recategorize cat
  | .convert org source dst recategorize cat => .convert org source dst recategorize cat
  | .unpair org id _ ec ic => .unpair org id ec ic

/-- The rows that a delete, a bulk delete or an unpair has locked are those that it would lock now:
the row a deleted one is linked to is among them, a bulk delete has the requested rows and their
partners, and an unpair is admitted with the same partner. A row that is converted is no balance
adjustment, which its first read has checked. -/
def PairPlan.Current (db : Db) : PairPlan → Prop
  | .delete org id ids => ∀ tx ∈ db.transaction? id org, ∀ l ∈ tx.linkedTransactionId,
      (db.transaction? l org).isSome → l ∈ ids
  | .bulkDelete org requested ids =>
      db.lockRows org ids = db.lockRows org (bulkDeletePreview db org requested.eraseDups)
  | .unpair org id linked ec ic => unpairPreview db org id ec ic = .ok linked
  | .convert org source _ _ _ =>
      ∀ tx ∈ db.transaction? source org, tx.isManualAdjustment = false
  | .update .. | .pair .. => True

instance PairPlan.decidableCurrent (db : Db) : ∀ p : PairPlan, Decidable (p.Current db)
  | .delete org id ids =>
      inferInstanceAs (Decidable (∀ tx ∈ db.transaction? id org, ∀ l ∈ tx.linkedTransactionId,
        (db.transaction? l org).isSome → l ∈ ids))
  | .bulkDelete org requested ids =>
      inferInstanceAs (Decidable (db.lockRows org ids =
        db.lockRows org (bulkDeletePreview db org requested.eraseDups)))
  | .unpair org id linked ec ic =>
      inferInstanceAs (Decidable (unpairPreview db org id ec ic = .ok linked))
  | .convert org source _ _ _ =>
      inferInstanceAs (Decidable (∀ tx ∈ db.transaction? source org, tx.isManualAdjustment = false))
  | .update .. | .pair .. => .isTrue trivial

section

variable {db db' : Db} {org id : ℕ} {ids ids' : List ℕ}

/-! ### What the locks matter for -/

theorem rowsGet_lockRows_congr {i : ℕ} (h : (db.transaction? i org).isSome → (i ∈ ids ↔ i ∈ ids')) :
    rowsGet (db.lockRows org ids) i = rowsGet (db.lockRows org ids') i := by
  ext t
  simp only [Db.rowsGet_lockRows]
  exact and_congr_right fun ht => h (by simp [ht])

/-- An update depends on its locks through the row and the row it is linked to. -/
theorem updateTransactionLocked_congr {body : TransactionUpdate} {today : Date}
    (hid : rowsGet (db.lockRows org ids) id = rowsGet (db.lockRows org ids') id)
    (hlink : ∀ tx ∈ rowsGet (db.lockRows org ids') id, ∀ l ∈ tx.linkedTransactionId,
      rowsGet (db.lockRows org ids) l = rowsGet (db.lockRows org ids') l) :
    updateTransactionLocked db org id body today ids =
      updateTransactionLocked db org id body today ids' := by
  unfold updateTransactionLocked
  simp only [hid]
  refine bind_congr_of_ok fun tx htx => ?_
  have hpartner := hlink tx (orRaise_eq_ok.mp htx)
  cases hl : tx.linkedTransactionId with
  | none => rfl
  | some l => simp only [Option.any_some, Option.bind_some, hpartner l hl]

theorem deleteTransactionLocked_congr
    (hid : rowsGet (db.lockRows org ids) id = rowsGet (db.lockRows org ids') id)
    (hlink : ∀ tx ∈ rowsGet (db.lockRows org ids') id, ∀ l ∈ tx.linkedTransactionId,
      rowsGet (db.lockRows org ids) l = rowsGet (db.lockRows org ids') l) :
    deleteTransactionLocked db org id ids = deleteTransactionLocked db org id ids' := by
  unfold deleteTransactionLocked
  simp only [hid]
  refine bind_congr_of_ok fun tx htx => ?_
  have hpartner := hlink tx (orRaise_eq_ok.mp htx)
  cases hl : tx.linkedTransactionId with
  | none => rfl
  | some l => simp only [Option.bind_some, hpartner l hl]

/-- Deleting nothing changes nothing. -/
theorem Db.deleteTransactions_nil (db : Db) : db.deleteTransactions [] = db := by
  have hrows : (db.deleteTransactions []).transactions = db.transactions := by
    refine Table.ext ?_ rfl
    have hunlink : unlinkFrom [] = id := by
      funext t
      simp [unlinkFrom]
    simp [deleteTransactions, Table.mapRows, Table.filter, hunlink]
  exact (congrArg (fun t => { db with transactions := t }) hrows : _)

/-! ### A current commit -/

/-- The row and its partner are among the rows that an update or a delete would lock. -/
theorem rowsGet_lockRows_pair {tx : Transaction} {l : ℕ} (hl : tx.linkedTransactionId = some l)
    (h : (db.transaction? l org).isSome → l ∈ ids) :
    rowsGet (db.lockRows org ids) l =
      rowsGet (db.lockRows org (id :: tx.linkedTransactionId.toList)) l :=
  rowsGet_lockRows_congr fun hrow => iff_of_true (h hrow) (by simp [hl])

theorem pairPreview_of_row {tx : Transaction} (h : db.transaction? id org = some tx) :
    pairPreview db org id = .ok (id :: tx.linkedTransactionId.toList) := by
  simp only [pairPreview, h, orRaise, bind_of_ok rfl]
  rfl

/-- A row that is locked and found is locked by its own request as well. -/
theorem rowsGet_lockRows_own {tx : Transaction} (h : rowsGet (db.lockRows org ids) id = some tx) :
    rowsGet (db.lockRows org ids) id =
      rowsGet (db.lockRows org (id :: tx.linkedTransactionId.toList)) id :=
  rowsGet_lockRows_congr fun _ => iff_of_true (Db.rowsGet_lockRows.mp h).2 (by simp)

/-- An update that commits does what it would do at once: it has checked its locks. -/
theorem updateTransaction_of_locked {body : TransactionUpdate} {today : Date} {x : Db × Transaction}
    (h : updateTransactionLocked db org id body today ids = .ok x) :
    updateTransaction db org id body today = .ok x := by
  obtain ⟨tx, htx, hfound⟩ : ∃ tx, rowsGet (db.lockRows org ids) id = some tx ∧
      ∀ l ∈ tx.linkedTransactionId, (rowsGet (db.lockRows org ids) l).isSome := by
    unfold updateTransactionLocked at h
    simp only [↓unit_bind_eq_ok, bind_eq_ok, orRaise_eq_ok, raiseIf_eq_ok] at h
    obtain ⟨tx, htx, -, hfound, -⟩ := h
    refine ⟨tx, htx, fun l hl => ?_⟩
    simpa [Option.mem_def.mp hl, Option.isSome_iff_ne_none] using hfound
  rw [updateTransaction, bind_of_ok (pairPreview_of_row (Db.rowsGet_lockRows.mp htx).1), ← h]
  refine (updateTransactionLocked_congr (rowsGet_lockRows_own htx) fun t ht l hl => ?_).symm
  obtain rfl : t = tx := Option.some_inj.mp
    ((Db.rowsGet_lockRows.mp ht).1.symm.trans (Db.rowsGet_lockRows.mp htx).1)
  obtain ⟨p, hp⟩ := Option.isSome_iff_exists.mp (hfound l hl)
  exact rowsGet_lockRows_pair hl fun _ => (Db.rowsGet_lockRows.mp hp).2

/-- A delete that finds the row linked as it has read it does what it would do at once. -/
theorem deleteTransaction_of_locked (hcurrent : (PairPlan.delete org id ids).Current db)
    (h : deleteTransactionLocked db org id ids = .ok db') :
    deleteTransaction db org id = .ok db' := by
  obtain ⟨tx, htx⟩ : ∃ tx, rowsGet (db.lockRows org ids) id = some tx := by
    unfold deleteTransactionLocked at h
    simp only [bind_eq_ok, orRaise_eq_ok] at h
    obtain ⟨tx, htx, -⟩ := h
    exact ⟨tx, htx⟩
  have hrow := (Db.rowsGet_lockRows.mp htx).1
  rw [deleteTransaction, bind_of_ok (pairPreview_of_row hrow), ← h]
  refine (deleteTransactionLocked_congr (rowsGet_lockRows_own htx) fun t ht l hl => ?_).symm
  obtain rfl : t = tx := Option.some_inj.mp ((Db.rowsGet_lockRows.mp ht).1.symm.trans hrow)
  exact rowsGet_lockRows_pair hl (hcurrent t hrow l hl)

/-- What a bulk delete leaves depends on the locked rows and not on what it reports. -/
theorem bulkDeleteLocked_congr {requested requested' : List ℕ}
    (h : db.lockRows org ids = db.lockRows org ids') :
    Prod.fst <$> bulkDeleteLocked db org requested ids =
      Prod.fst <$> bulkDeleteLocked db org requested' ids' := by
  unfold bulkDeleteLocked
  simp only [h, map_bind, map_pure]

/-- A bulk delete of no rows ends where a bulk delete without its early end does. -/
theorem bulkDeleteLocked_nil {requested : List ℕ} :
    Prod.fst <$> bulkDeleteLocked db org requested [] = pure db := by
  have hrows : db.lockRows org [] = [] := by simp [Db.lockRows]
  unfold bulkDeleteLocked
  simp only [hrows, map_bind, map_pure]
  exact congrArg Except.ok db.deleteTransactions_nil

theorem write_bulkDelete {requested : List ℕ} :
    (PairPlan.bulkDelete org requested ids).write db =
      Prod.fst <$> bulkDeleteLocked db org requested ids := by
  simp only [PairPlan.write]
  split_ifs with hids
  · rw [hids, bulkDeleteLocked_nil]
  · rfl

theorem step_bulkDelete {requested : List ℕ} :
    Request.step db (.bulkDelete org requested) =
      Prod.fst <$> bulkDeleteLocked db org requested
        (bulkDeletePreview db org requested.eraseDups) := by
  have hstep := Request.step_eq_preview_bind db (.bulkDelete org requested)
  rw [PairTask.toRequest] at hstep
  rw [hstep, PairTask.preview, pure_bind, write_bulkDelete, bulkDeleteLocked_congr rfl]

/-- A conversion that commits passes its first checks: it has made all but one of them again. -/
theorem convertAndCreateLeg_of_locked {dst : ℕ} {recategorize : Bool} {cat : Option ℕ}
    (hcurrent : (PairPlan.convert org id dst recategorize cat).Current db)
    (h : convertLocked db org id dst recategorize cat = .ok db') :
    convertAndCreateLeg db org id dst recategorize cat = .ok db' := by
  have hpreview : convertPreview db org id dst = .ok () := by
    obtain ⟨_, _, _, _, _, _, _, ⟨acct, hacct⟩, -⟩ := convertLocked_ok h
    unfold convertLocked at h
    simp only [↓unit_bind_eq_ok, bind_eq_ok, orRaise_eq_ok, raiseIf_eq_ok] at h
    obtain ⟨source, hsource, hunlinked, hrecurring, haccount, -, hcurrency, -⟩ := h
    have hdst : db.currencyOf dst = some acct.currency := by
      rw [Db.currencyOf, (Db.account?_eq_some.mp hacct).1]
      rfl
    simp only [convertPreview, ↓unit_bind_eq_ok, bind_eq_ok, orRaise_eq_ok, raiseIf_eq_ok]
    exact ⟨source, hsource, hunlinked, hrecurring,
      by simp [hcurrent source hsource], haccount, acct, hacct, by rwa [← hdst]⟩
  rw [convertAndCreateLeg, bind_of_ok hpreview, h]

/-- A current commit does what the serial operation would do at once. -/
theorem PairPlan.step_of_write {p : PairPlan} (hcurrent : p.Current db) (h : p.write db = .ok db') :
    Request.step db p.toRequest = .ok db' := by
  cases p with
  | update org id body today ids =>
    obtain ⟨edited, h⟩ := map_fst_eq_ok.mp h
    exact map_fst_eq_ok.mpr ⟨edited, updateTransaction_of_locked h⟩
  | delete org id ids => exact deleteTransaction_of_locked hcurrent h
  | bulkDelete org requested ids =>
    rw [write_bulkDelete, bulkDeleteLocked_congr hcurrent] at h
    rw [PairPlan.toRequest, step_bulkDelete, h]
  | pair org e i recategorize cat => exact h
  | convert org source dst recategorize cat => exact convertAndCreateLeg_of_locked hcurrent h
  | unpair org id linked ec ic =>
    have hpreview : unpairPreview db org id ec ic = .ok linked := hcurrent
    rw [PairPlan.toRequest, Request.step, unpairTransactions, bind_of_ok hpreview]
    exact h

end

/-! ### Every interleaving -/

/-- The requests that an interleaving commits, in the order of the commits. -/
def pairCommits (db : Db) (ts : List (Turn PairTask)) : List Request :=
  (pairSystem.committed { shared := db, live := [] } ts).map PairPlan.toRequest

/-- An interleaving whose commits find the rows linked as they were read leads to the ledger of a
serial run: that of the committed requests, one after another, in the order of their commits. -/
theorem serial_of_interleaving {db : Db} (ts : List (Turn PairTask))
    (hts : EveryCommit (fun db p => p.Current db) db ts) :
    (pairRun db ts).shared = serveAll Request.step db (pairCommits db ts) :=
  TwoStep.interleave_eq_serveAll (I := fun _ => True) (fun _ _ _ _ => pairSystem_check)
    (fun _ _ _ _ hcurrent h => ⟨trivial, PairPlan.step_of_write hcurrent h⟩) ts trivial hts

/-- A delete of the transfer reads the pair; before it commits, the other income is paired with a
new expense and the transfer is unpaired and paired again. -/
def sampleOverlapping : List (Turn PairTask) :=
  [.start (.delete 1 1), .advance 0, .start (.convert 1 3 1 false none), .advance 1, .advance 1,
    .start (.unpair 1 1 1 1), .advance 1, .advance 1, .start (.pair 1 1 2 false none), .advance 1,
    .advance 1, .advance 0]

/-- All four requests commit, and the first to read is the last to write. -/
theorem sampleOverlapping_serial :
    let db := serveAll Request.step sampleDb sampleTriangleRun
    (pairCommits db sampleOverlapping).length = 4 ∧
      (pairRun db sampleOverlapping).shared =
        serveAll Request.step db (pairCommits db sampleOverlapping) :=
  ⟨by decide +kernel, serial_of_interleaving sampleOverlapping (by decide +kernel)⟩

end Pfv
