import Pfv.Ledger.RowRules

/-!
# Settled dates

A settled row has a settled date, and a settled date is never before the date of its row. The
schemas, the flush guard and the update of a transaction see to it. The edit of an imported row in a
reconcile request moves the settled date along with the date on a settled row; on a pending row with
an expected settled date it moves the date alone.

## Main definitions

* `Transaction.DatesOk`, `Db.DatesOk`: the dates of a row, of all rows.
* `Request.KeepsDates`: the requests that do not edit the date of a pending row past its settled
  date.

## Main results

* `Request.step_datesOk`: such a request keeps the dates.
* `settledDate_of_run`: the dates after every run of such requests.
-/

namespace Pfv

/-- A settled row has a settled date, and no settled date is before the date. -/
structure Transaction.DatesOk (t : Transaction) : Prop where
  settled : t.status = .settled → t.settledDate.isSome
  ordered : ∀ d, t.settledDate = some d → t.date ≤ d

/-- The dates of all rows. -/
def Db.DatesOk (db : Db) : Prop :=
  ∀ i t, db.transactions.get? i = some t → t.DatesOk

/-- The edits of a reconcile request do not move the date of a pending row past its settled date. -/
def Request.KeepsDates (db : Db) : Request → Prop
  | .reconcile org b body => ∀ batch, db.importBatch? b org = some batch →
      Throughout (fun s tr => ∀ tx edits date d, s.1.transaction? tr.transactionId org = some tx →
          tx.reconciliationState ≠ tr.toState → tr.toState = .edited → tr.edits = some edits →
          edits.date = some date → tx.status = .pending → tx.settledDate = some d → date ≤ d)
        (reconcileOne org) (db, batch) body.transitions
  | _ => True

theorem Date.le_refl (d : Date) : d ≤ d := Nat.le_refl _

theorem Transaction.DatesOk.of_eq {t t' : Transaction} (h : t.DatesOk)
    (hstatus : t'.status = t.status) (hdate : t'.date = t.date)
    (hsettled : t'.settledDate = t.settledDate) : t'.DatesOk :=
  ⟨fun hs => hsettled ▸ h.settled (hstatus ▸ hs), fun d hd => hdate ▸ h.ordered d (hsettled ▸ hd)⟩

theorem datesOk_entryRule : Transaction.EntryRule Transaction.DatesOk where
  sameEntry h hsame := by
    rw [hsame]
    exact h.of_eq rfl rfl rfl
  withId _ h := h.of_eq rfl rfl rfl
  mirrored _ h := h.of_eq rfl rfl rfl

/-! ### Rows as they are first stored -/

theorem TransactionCreate.datesOk_row (body : TransactionCreate) (org : ℕ) (imported manual : Bool)
    (fitid : Option String) : (body.row org imported manual fitid).DatesOk where
  settled hs := by
    have hstatus : body.status = .settled := hs
    simp [TransactionCreate.row, hstatus]
  ordered d hd := by
    have hbody := body.settledDate_le
    simp only [TransactionCreate.row] at hd ⊢
    cases hdate : body.settledDate with
    | none =>
      rw [hdate] at hd
      split_ifs at hd
      rw [← Option.some_inj.mp hd]
      exact body.date.le_refl
    | some e =>
      rw [hdate] at hd hbody
      have hde : e = d := by
        split_ifs at hd
        · simpa using hd
        · simpa using hd
      exact hde ▸ hbody e rfl

/-- A row settled on its date, or pending without a settled date. -/
theorem Transaction.datesOk_of_ite {t : Transaction} {p : Prop} [Decidable p]
    (hstatus : t.status = .settled → p) (hdate : t.settledDate = if p then some t.date else none) :
    t.DatesOk where
  settled hs := by
    rw [hdate, if_pos (hstatus hs)]
    rfl
  ordered d hd := by
    rw [hdate] at hd
    split_ifs at hd
    rw [← Option.some_inj.mp hd]
    exact t.date.le_refl

theorem RecurringTransaction.datesOk_row (r : RecurringTransaction) : r.row.DatesOk := by
  refine Transaction.datesOk_of_ite (p := r.autoSettle = true) (fun hs => ?_) rfl
  by_contra hauto
  simp [RecurringTransaction.row, hauto] at hs

/-- The rows that requests post have their dates in order. -/
theorem Db.DatesOk.posts {db : Db} (h : db.DatesOk) : db.Posts Transaction.DatesOk where
  created body org imported manual fitid _ := body.datesOk_row org imported manual fitid
  leg body _ _ _ _ _ _ :=
    Transaction.datesOk_of_ite (p := body.status = .settled) id rfl
  partner _ _ _ _ hsource :=
    (h _ _ (transaction?_self hsource)).of_eq rfl rfl rfl
  generated r _ := r.datesOk_row

/-! ### Requests -/

section

variable {db db' : Db} {org : ℕ}

/-- A transition whose edit keeps to the condition leaves the dates of the row in order. -/
theorem reconcileOne_datesOk {s s' : Db × ImportBatch} {tr : ReconciliationTransition}
    (hwf : s.1.WellFormed) (h : s.1.DatesOk)
    (hok : ∀ tx edits date d, s.1.transaction? tr.transactionId org = some tx →
      tx.reconciliationState ≠ tr.toState → tr.toState = .edited → tr.edits = some edits →
      edits.date = some date → tx.status = .pending → tx.settledDate = some d → date ≤ d)
    (hone : reconcileOne org s tr = .ok s') : s'.1.DatesOk := by
  obtain ⟨tx, htx, hb, ⟨-, rfl⟩ | ⟨hne, -, tx', htr, rfl, -⟩⟩ :=
    reconcileOne_ok (fun tx htx hb => hwf.manual_of_batch htx hb) hone
  · exact h
  have hdates := h _ _ (Db.transaction?_self htx)
  have hrows : s.1.Rows Transaction.DatesOk := h
  have hcredit : (s.1.credit tx.accountId
      (tx'.reportedAmount - tx.reportedAmount)).Rows Transaction.DatesOk :=
        hrows.of_transactions rfl
  refine hcredit.putTransaction ?_
  rcases htr.dates with ⟨hdate, hsettled⟩ | ⟨hedited, edits, date, hedits, hdate, heq, hsettled⟩
  · exact hdates.of_eq htr.status_eq hdate hsettled
  · cases hstatus : tx.status with
    | settled =>
      rw [hstatus, if_pos rfl, ← heq] at hsettled
      refine ⟨fun _ => by simp [hsettled], fun d hd => ?_⟩
      rw [hsettled, Option.some_inj] at hd
      exact hd ▸ tx'.date.le_refl
    | pending =>
      rw [hstatus, if_neg (by decide)] at hsettled
      refine ⟨fun hs => ?_, fun d hd => ?_⟩
      · rw [htr.status_eq, hstatus] at hs
        exact absurd hs (by decide)
      · rw [heq]
        exact hok tx edits date d htx hne hedited hedits hdate hstatus (hsettled ▸ hd)

/-- A request whose edits keep to the condition keeps the dates of all rows in order. -/
theorem Request.step_datesOk {r : Request} (hwf : db.WellFormed) (h : db.DatesOk)
    (hr : r.KeepsDates db) (hstep : Request.step db r = .ok db') : db'.DatesOk := by
  refine Request.step_rows datesOk_entryRule hwf h h.posts ?_ ?_ hstep
  · intro org id body today ids db' edited hupdate
    obtain ⟨hsettled, hordered⟩ := updateTransactionLocked_dates hupdate
    exact ⟨hsettled, hordered⟩
  · rintro org b body rfl batch s' hbatch hloop
    exact ((hr batch hbatch).foldlM_invariant
      (fun s : Db × ImportBatch => s.1.WellFormed ∧ s.1.DatesOk)
      (fun _ _ _ hs hitem hone => ⟨reconcileOne_wellFormed hs.1 hone,
        reconcileOne_datesOk hs.1 hs.2 hitem hone⟩) ⟨hwf, h⟩ hloop).2

/-- The settled-date invariant: after every run of requests in which no reconcile request edits the
date of a pending row past its settled date, every settled row has a settled date, and no row has a
settled date before its date. -/
theorem settledDate_of_run (hseeded : db.Seeded) {rs : List Request}
    (hrs : Admits (fun d r => r.KeepsDates d) Request.step db rs) {i : ℕ} {t : Transaction}
    (ht : (serveAll Request.step db rs).transactions.get? i = some t) :
    (t.status = .settled → t.settledDate.isSome) ∧ ∀ d, t.settledDate = some d → t.date ≤ d := by
  have hdates : db.DatesOk := hseeded.rows
  have hfinal := (serveAll_invariant (I := fun d : Db => d.WellFormed ∧ d.DatesOk)
    (fun d r d' hd hr hstep => ⟨Request.step_wellFormed hd.1 hstep,
      Request.step_datesOk hd.1 hd.2 hr hstep⟩) rs ⟨hseeded.wellFormed, hdates⟩ hrs).2 i t ht
  exact ⟨hfinal.settled, hfinal.ordered⟩

end

/-! ### Sample runs -/

/-- The day after the day of the samples. -/
def sampleNextDate : Date := .of 2024 1 2

theorem noDescription_ok : ∀ d ∈ (none : Option String), d ≠ "" := by simp

theorem noDescription_le : ∀ d ∈ (none : Option String), d.length ≤ 255 := by simp

/-- An imported row becomes pending, is expected to settle on its date, and is reopened. -/
def sampleExpectedRun : List Request :=
  [sampleAccount "Checking", sampleImport 1 [.expense],
    .update 1 1 { status := some .pending, settledDate := some (some sampleDate)
                  description_ok := noDescription_ok } sampleDate,
    sampleTransition 1 .pendingReview]

/-- The row is edited to a date. -/
def sampleEditDate (date : Date) : Request :=
  sampleReconcile [{ transactionId := 1, toState := .edited
                     edits := some { date := some date, description_le := noDescription_le } }]
    (by simp) (by simp)

theorem sampleExpectedRun_admits :
    Admits (fun d r => r.KeepsDates d) Request.step sampleDb
      (sampleExpectedRun ++ [sampleEditDate sampleDate]) := by
  refine ⟨trivial, trivial, trivial, fun batch _ => ⟨?_, fun _ _ => trivial⟩,
    fun batch _ => ⟨?_, fun _ _ => trivial⟩, trivial⟩
  · rintro tx edits date d - - hedited
    exact absurd hedited (by decide)
  · rintro tx edits date d htx - - hedits hdate - hd
    have hrow : ((serveAll Request.step sampleDb sampleExpectedRun).transaction? 1 1).map
        (·.settledDate) = some (some sampleDate) := by
      decide +kernel
    have htx' : (serveAll Request.step sampleDb sampleExpectedRun).transaction? 1 1 = some tx := htx
    rw [htx', Option.map_some, hd, Option.some_inj, Option.some_inj] at hrow
    rw [← Option.some_inj.mp hedits, Option.some_inj] at hdate
    rw [← hdate, hrow]
    exact sampleDate.le_refl

/-- An edit of the sample row to its own date keeps the expected date on or after it. -/
theorem settledDate_of_sampleExpectedRun :
    ∃ t, (serveAll Request.step sampleDb
        (sampleExpectedRun ++ [sampleEditDate sampleDate])).transactions.get? 1 = some t ∧
      t.settledDate = some sampleDate ∧ t.date ≤ sampleDate := by
  have hrow : ((serveAll Request.step sampleDb
      (sampleExpectedRun ++ [sampleEditDate sampleDate])).transactions.get? 1).map
        (·.settledDate) = some (some sampleDate) := by
    decide +kernel
  obtain ⟨t, ht, hsettled⟩ := Option.map_eq_some_iff.mp hrow
  exact ⟨t, ht, hsettled,
    (settledDate_of_run sampleDb_seeded sampleExpectedRun_admits ht).2 _ hsettled⟩

/-- An edit to the next day leaves the expected date before the date. -/
theorem settledDate_lt_date_of_sampleEditDate :
    ∃ t, (serveAll Request.step sampleDb
        (sampleExpectedRun ++ [sampleEditDate sampleNextDate])).transactions.get? 1 = some t ∧
      t.settledDate = some sampleDate ∧ sampleDate < t.date := by
  have hrow : ((serveAll Request.step sampleDb
      (sampleExpectedRun ++ [sampleEditDate sampleNextDate])).transactions.get? 1).map
        (fun t => (t.settledDate, t.date)) = some (some sampleDate, sampleNextDate) := by
    decide +kernel
  obtain ⟨t, ht, hdates⟩ := Option.map_eq_some_iff.mp hrow
  obtain ⟨hsettled, hdate⟩ := Prod.ext_iff.mp hdates
  exact ⟨t, ht, hsettled, by rw [show t.date = sampleNextDate from hdate]; decide⟩

end Pfv
