import Pfv.Ledger.Adjustments
import Pfv.Ledger.Deletion

/-!
# Matched rows

A MATCHED transition writes the link column of the imported row alone, so that the column means two
things: the other leg of a transfer when the two rows point at each other, and the row an import
duplicates when only one of them points. The transaction service reads every link as a leg. This
file says which transitions and deletes leave the rows of others alone.

## Main definitions

* `KeepsLegs start`: no transition of the request matches a row that was linked at the start to a
  row other than its partner.
* `DeletesUnmatched start db t`: a delete of the row `t` whose link is the one it had at the start.
* `Db.SparesOthers`: pairs keep their links, and the delete removes the row and its partner alone.

## Main results

* `linkOf_of_run`: pairs keep their links in every run of such requests.
* `sparesOthers_of_run`: the frame of reconcile requests followed by a delete.
-/

namespace Pfv

/-- An accepted reconcile request in which every transition to MATCHED of a row that is not matched
yet, and that was linked at the start, names its partner. -/
def KeepsLegs (start db : Db) : Request → Prop
  | .reconcile org b body =>
      ∀ batch db', db.importBatch? b org = some batch →
        Request.step db (.reconcile org b body) = .ok db' →
        Throughout (fun (s : Db × ImportBatch) tr => ∀ tx j,
            s.1.transaction? tr.transactionId org = some tx → tr.toState = .matched →
            tx.reconciliationState ≠ .matched → start.linkOf tx.id = some j →
            tr.matchWithTransactionId = some j)
          (reconcileOne org) (db, batch) body.transitions
  | _ => False

/-- A delete of the row `t` whose link is the one it had at the start. The bulk delete may also name
a row that was matched to a manual adjustment, unless it takes the row itself off the balance of the
account of the adjustment. -/
def DeletesUnmatched (start db : Db) (t : ℕ) : Request → Prop
  | .delete org id => id = t ∧ ∀ tx, db.transaction? t org = some tx →
      tx.linkedTransactionId = start.linkOf t
  | .bulkDelete org ids => ids = [t] ∧ ∀ tx, db.transaction? t org = some tx →
      tx.linkedTransactionId = start.linkOf t ∨
        ∀ m, tx.linkedTransactionId = some m.id → db.transactions.get? m.id = some m →
          m.isManualAdjustment = true ∧ (m.accountId ≠ tx.accountId ∨ tx.settledAmount = 0)
  | _ => False

/-- What reconcile requests from `start` to `db` and a delete of the row `t` from `db` to `db'`
leave alone: the links of the pairs of the start, every row but the deleted one and its partner,
and, for a row the deleted one was merely matched to, the row and the balance of its account. -/
structure Db.SparesOthers (start db db' : Db) (t : ℕ) : Prop where
  links : ∀ i j, start.linkOf i = some j → db.linkOf i = some j
  removed : ∀ i u, db.transactions.get? i = some u → db'.transactions.get? i = none →
    i = t ∨ start.linkOf t = some i ∧ start.linkOf i = some t
  matched : ∀ tx m, db.transactions.get? t = some tx → tx.linkedTransactionId = some m.id →
    db.transactions.get? m.id = some m → start.linkOf t ≠ some m.id →
    (db'.transactions.get? m.id).isSome ∧ db'.balance? m.accountId = db.balance? m.accountId

/-! ### The links of the pairs -/

section

variable {start db db' : Db} {org t : ℕ} {r : Request}

/-- The links of the start are still there. -/
structure LinksKept (start db : Db) : Prop where
  wellFormed : db.WellFormed
  links : ∀ i j, start.linkOf i = some j → db.linkOf i = some j

theorem linkOf_restate {tx tx' : Transaction} (hid : tx'.id = tx.id)
    (htx : db.transactions.get? tx.id = some tx) :
    (db.restate tx tx').linkOf = Function.update db.linkOf tx'.id tx'.linkedTransactionId := by
  have h : (db.credit tx.accountId (tx'.reportedAmount - tx.reportedAmount)).transactions.get?
      tx'.id = some tx := hid ▸ htx
  exact Db.linkOf_putTransaction h

theorem LinksKept.reconcileOne {s s' : Db × ImportBatch} {tr : ReconciliationTransition}
    (h : LinksKept start s.1)
    (hok : ∀ tx j, s.1.transaction? tr.transactionId org = some tx → tr.toState = .matched →
      tx.reconciliationState ≠ .matched → start.linkOf tx.id = some j →
      tr.matchWithTransactionId = some j)
    (hone : reconcileOne org s tr = .ok s') : LinksKept start s'.1 := by
  have hwf := reconcileOne_wellFormed h.wellFormed hone
  obtain ⟨tx, htx, -, ⟨-, rfl⟩ | ⟨hne, -, tx', htr, rfl, -⟩⟩ :=
    reconcileOne_ok (fun tx htx hb => h.wellFormed.manual_of_batch htx hb) hone
  · exact h
  refine ⟨hwf, fun i j hij => ?_⟩
  have hget := Db.transaction?_self htx
  rw [linkOf_restate htr.id_eq hget]
  by_cases hi : i = tx'.id
  · subst hi
    rw [Function.update_self]
    rw [htr.id_eq] at hij
    by_cases hmatched : tr.toState = .matched
    · -- The row was linked at the start, and is matched to its partner.
      obtain ⟨m, hm, -, hlink⟩ := htr.link_of_matched hmatched
      rw [hlink, ← hm]
      exact hok tx j htx hmatched (fun hstate => hne (hstate.trans hmatched.symm)) hij
    · rw [htr.link_eq hmatched, ← Db.linkOf_of_get? hget]
      exact h.links _ _ hij
  · rw [Function.update_of_ne hi]
    exact h.links i j hij

theorem LinksKept.step (h : LinksKept start db) (hr : KeepsLegs start db r)
    (hstep : Request.step db r = .ok db') : LinksKept start db' := by
  cases r with
  | reconcile org b body =>
    obtain ⟨_, hok⟩ := map_fst_eq_ok.mp hstep
    obtain ⟨batch, db₁, batch₁, hbatch, hloop, rfl⟩ := reconcileRequest_ok hok
    have hkept := (hr batch _ hbatch hstep).foldlM_invariant
      (fun s : Db × ImportBatch => LinksKept start s.1)
      (fun _ _ _ hs hitem hone => hs.reconcileOne hitem hone) h hloop
    exact ⟨hkept.wellFormed.of_transactions (.of_eq rfl) rfl le_rfl rfl, hkept.links⟩
  | _ => exact hr.elim

theorem linksKept_of_run {rs : List Request} (hwf : start.WellFormed)
    (hrs : Admits (KeepsLegs start) Request.step start rs) :
    LinksKept start (serveAll Request.step start rs) :=
  serveAll_invariant (fun _ _ _ hs hr hstep => LinksKept.step hs hr hstep) rs
    ⟨hwf, fun _ _ h => h⟩ hrs

/-! ### The delete -/

/-- The rows that a change removes when it deletes the rows with some ids. -/
theorem mem_of_get?_eq_none {ids : List ℕ}
    (hrows : db'.transactions = (db.deleteTransactions ids).transactions) {i : ℕ} {u : Transaction}
    (hu : db.transactions.get? i = some u) (hnone : db'.transactions.get? i = none) : i ∈ ids := by
  by_contra hi
  rw [hrows, Db.get?_deleteTransactions, if_neg hi, hu] at hnone
  exact absurd hnone (by simp)

/-- The single delete removes the row and the row it is linked to. -/
theorem removed_of_delete (h : deleteTransaction db org t = .ok db') {i : ℕ} {u : Transaction}
    (hu : db.transactions.get? i = some u) (hnone : db'.transactions.get? i = none) :
    ∃ tx, db.transaction? t org = some tx ∧ (i = t ∨ tx.linkedTransactionId = some i) := by
  obtain ⟨tx, htx, -, rfl⟩ := deleteTransaction_ok h
  refine ⟨tx, htx, ?_⟩
  rcases List.mem_cons.mp (mem_of_get?_eq_none (Db.deleteCascade_transactions db _ _) hu hnone)
    with hi | hi
  · exact .inl (hi.trans (Db.transaction?_id htx))
  · obtain ⟨p, hp, rfl⟩ := List.mem_map.mp hi
    exact .inr (Db.linked_eq_some.mp (Option.mem_toList.mp hp)).1

/-- The bulk delete of a row removes the row and the row it is linked to, adjustments apart. -/
theorem removed_of_bulkDelete {n : ℕ} {skipped : List ℕ}
    (h : bulkDeleteTransactions db org [t] = .ok (db', n, skipped)) {i : ℕ} {u : Transaction}
    (hu : db.transactions.get? i = some u) (hnone : db'.transactions.get? i = none) :
    ∃ tx, db.transaction? t org = some tx ∧ (i = t ∨ tx.linkedTransactionId = some i) ∧
      u.isManualAdjustment = false := by
  rcases bulkDeleteTransactions_ok h with rfl | rfl
  · rw [hu] at hnone
    exact absurd hnone (by simp)
  obtain ⟨v, hv, rfl⟩ := List.mem_map.mp
    (mem_of_get?_eq_none (Db.remove_transactions db _) hu hnone)
  obtain ⟨hget, hids, -, hmanual⟩ := Db.mem_bulkRows.mp hv
  rw [hget, Option.some_inj] at hu
  subst hu
  have hdups : ([t] : List ℕ).eraseDups = [t] := rfl
  rw [hdups, bulkDeletePreview, List.mem_append] at hids
  rcases hids with hid | hid
  · obtain ⟨w, hw, hwid⟩ := List.mem_map.mp hid
    obtain ⟨hwget, hwt, horg⟩ := Db.mem_lockRows.mp hw
    rw [List.mem_singleton.mp hwt] at hwget
    exact ⟨w, Db.transaction?_eq_some.mpr ⟨hwget, horg⟩,
      .inl (hwid.symm.trans (List.mem_singleton.mp hwt)), hmanual⟩
  · obtain ⟨w, hw, hlink⟩ := List.mem_filterMap.mp hid
    obtain ⟨hwget, hwt, horg⟩ := Db.mem_lockRows.mp hw
    rw [List.mem_singleton.mp hwt] at hwget
    exact ⟨w, Db.transaction?_eq_some.mpr ⟨hwget, horg⟩, .inr hlink, hmanual⟩

/-- Taking rows off the balances leaves an account alone that none of them counts on. -/
theorem Db.balance?_remove_of_ne {rows : List Transaction} {k : ℕ}
    (h : ∀ u ∈ rows, u.accountId ≠ k ∨ u.settledAmount = 0) (db : Db) :
    (db.remove rows).balance? k = db.balance? k := by
  suffices hrevert : ∀ d : Db, (d.revertAll rows).balance? k = d.balance? k from hrevert db
  unfold Db.revertAll
  induction rows with
  | nil => exact fun _ => rfl
  | cons u rows ih =>
    intro d
    rw [List.foldl_cons, ih fun v hv => h v (List.mem_cons_of_mem u hv), Db.balance?_credit]
    rcases h u List.mem_cons_self with hne | hzero
    · simp [hne.symm]
    · simp [hzero]

/-- A delete that leaves a ledger as it is spares the others. -/
theorem LinksKept.sparesOthers_refl (h : LinksKept start db) : start.SparesOthers db db t where
  links := h.links
  removed i u hu hnone := by
    rw [hu] at hnone
    exact absurd hnone (by simp)
  matched tx m _ _ hm _ := ⟨by simp [hm], rfl⟩

theorem LinksKept.sparesOthers_delete (h : LinksKept start db) (hpair : Pairing start.linkOf)
    (hlink : ∀ tx, db.transaction? t org = some tx → tx.linkedTransactionId = start.linkOf t)
    (hstep : deleteTransaction db org t = .ok db') : start.SparesOthers db db' t where
  links := h.links
  removed i u hu hnone := by
    obtain ⟨tx, htx, hi | hi⟩ := removed_of_delete hstep hu hnone
    · exact .inl hi
    · have hti := (hlink tx htx).symm.trans hi
      exact .inr ⟨hti, hpair _ _ hti⟩
  matched tx m hget hm _ hne := by
    obtain ⟨tx', htx', -⟩ := deleteTransaction_ok hstep
    have heq := (Db.transaction?_eq_some.mp htx').1
    rw [hget, Option.some_inj] at heq
    exact absurd ((hlink tx' htx').symm.trans (heq ▸ hm)) hne

theorem LinksKept.sparesOthers_bulkDelete (h : LinksKept start db) (hpair : Pairing start.linkOf)
    {n : ℕ} {skipped : List ℕ}
    (hlink : ∀ tx, db.transaction? t org = some tx → tx.linkedTransactionId = start.linkOf t ∨
      ∀ m, tx.linkedTransactionId = some m.id → db.transactions.get? m.id = some m →
        m.isManualAdjustment = true ∧ (m.accountId ≠ tx.accountId ∨ tx.settledAmount = 0))
    (hstep : bulkDeleteTransactions db org [t] = .ok (db', n, skipped)) :
    start.SparesOthers db db' t where
  links := h.links
  removed i u hu hnone := by
    obtain ⟨tx, htx, hi | hi, hmanual⟩ := removed_of_bulkDelete hstep hu hnone
    · exact .inl hi
    · obtain rfl : u.id = i := Table.get?_id hu
      rcases hlink tx htx with hsame | hadj
      · exact .inr ⟨hsame.symm.trans hi, hpair _ _ (hsame.symm.trans hi)⟩
      · exact absurd ((hadj u hi hu).1.symm.trans hmanual) (by simp)
  matched tx m hget hm hmget hne := by
    -- The bulk delete of a row of another organisation removes nothing.
    have hcase : ∀ u ∈ db.bulkRows org (bulkDeletePreview db org [t].eraseDups),
        (u.accountId ≠ m.accountId ∨ u.settledAmount = 0) ∧ u.id ≠ m.id := by
      intro u hu
      obtain ⟨huget, hids, -, humanual⟩ := Db.mem_bulkRows.mp hu
      have hpreview : ∃ w, db.transaction? t org = some w ∧
          (u.id = w.id ∨ w.linkedTransactionId = some u.id) := by
        have hdups : ([t] : List ℕ).eraseDups = [t] := rfl
        rw [hdups, bulkDeletePreview, List.mem_append, List.mem_map, List.mem_filterMap] at hids
        rcases hids with ⟨w, hw, hwu⟩ | ⟨w, hw, hwu⟩
        all_goals
          obtain ⟨hwget, hwt, horg⟩ := Db.mem_lockRows.mp hw
          rw [List.mem_singleton.mp hwt] at hwget
          refine ⟨w, Db.transaction?_eq_some.mpr ⟨hwget, horg⟩, ?_⟩
        · exact .inl hwu.symm
        · exact .inr hwu
      obtain ⟨w, hw, hwu⟩ := hpreview
      have hwtx := (Db.transaction?_eq_some.mp hw).1
      rw [hget, Option.some_inj] at hwtx
      subst hwtx
      obtain ⟨hmanual, hacc⟩ := ((hlink tx hw).resolve_left fun hsame =>
        hne (hsame.symm.trans hm)) m hm hmget
      have hum : u.id ≠ m.id := by
        intro hid
        rw [Table.get?_inj huget hmget hid, hmanual] at humanual
        exact absurd humanual (by simp)
      refine ⟨?_, hum⟩
      rcases hwu with hid | hl
      · rw [Table.get?_inj huget (Db.transaction?_self hw) hid]
        exact hacc.imp Ne.symm id
      · rw [hm, Option.some_inj] at hl
        exact absurd hl.symm hum
    rcases bulkDeleteTransactions_ok hstep with rfl | rfl
    · exact ⟨by simp [hmget], rfl⟩
    · refine ⟨?_, Db.balance?_remove_of_ne (fun u hu => (hcase u hu).1) db⟩
      rw [Db.remove_transactions, Db.get?_deleteTransactions, if_neg, hmget]
      · rfl
      · intro hmem
        obtain ⟨u, hu, hid⟩ := List.mem_map.mp hmem
        exact (hcase u hu).2 hid

/-- Matches leave the rows of others alone: in every run of reconcile requests that match no leg of
a transfer away from its partner, followed by a delete of a row that was not matched since, the
pairs keep their links, and the delete removes the row and its partner alone. -/
theorem sparesOthers_of_run (hreach : start.ReachableBy Request.LeavesReconciliation)
    {rs : List Request} (hrs : Admits (KeepsLegs start) Request.step start rs)
    (hr : DeletesUnmatched start (serveAll Request.step start rs) t r) :
    start.SparesOthers (serveAll Request.step start rs)
      (serve Request.step (serveAll Request.step start rs) r) t := by
  have hkept := linksKept_of_run hreach.wellFormed hrs
  rcases serve_cases Request.step (serveAll Request.step start rs) r with hstep | hstep
  · cases r with
    | delete org id =>
      obtain ⟨rfl, hlink⟩ := hr
      exact hkept.sparesOthers_delete hreach.paired.pairing hlink hstep
    | bulkDelete org ids =>
      obtain ⟨rfl, hlink⟩ := hr
      obtain ⟨⟨n, skipped⟩, hstep⟩ := map_fst_eq_ok.mp hstep
      exact hkept.sparesOthers_bulkDelete hreach.paired.pairing hlink hstep
    | _ => exact hr.elim
  · rw [hstep]
    exact hkept.sparesOthers_refl

end

/-- An adjustment of one account, two imported rows on another, and a pair with the second of
these. -/
def sampleSparedStart : List Request :=
  [sampleAccount "Checking", sampleAccount "Savings", .adjust 1 1 sampleAdjustment sampleDate,
    sampleImport 2 [.expense, .income], sampleCreate 1 .expense .settled, .pair 1 4 3 true none]

theorem sampleSparedStart_reachable :
    (serveAll Request.step sampleDb sampleSparedStart).ReachableBy
      Request.LeavesReconciliation := by
  refine ⟨sampleDb, _, sampleDb_seeded, ?_, rfl⟩
  simp [sampleSparedStart, sampleAccount, sampleCreate, sampleImport, Request.LeavesReconciliation]

/-- The first imported row is matched to the adjustment, the second to its partner. -/
def sampleSparedMatches : List ReconciliationTransition :=
  [{ transactionId := 2, toState := .pendingReview },
    { transactionId := 2, toState := .matched, matchWithTransactionId := some 1 },
    { transactionId := 3, toState := .pendingReview },
    { transactionId := 3, toState := .matched, matchWithTransactionId := some 4 }]

def sampleSparedRun : List Request :=
  [sampleReconcile sampleSparedMatches (by decide) (by decide)]

theorem sampleSparedRun_admits :
    Admits (KeepsLegs (serveAll Request.step sampleDb sampleSparedStart)) Request.step
      (serveAll Request.step sampleDb sampleSparedStart) sampleSparedRun := by
  have hmatches : ∀ tr ∈ sampleSparedMatches, tr.toState = .matched →
      ∀ j ∈ (serveAll Request.step sampleDb sampleSparedStart).linkOf tr.transactionId,
        tr.matchWithTransactionId = some j := by
    decide +kernel
  refine ⟨fun _ _ _ _ => .of_forall fun tr htr s tx j htx hstate _ hj => ?_, trivial⟩
  exact hmatches tr htr hstate j (Db.transaction?_id htx ▸ hj)

/-- The ledger after the matches. -/
def sampleSparedDb : Db :=
  serveAll Request.step (serveAll Request.step sampleDb sampleSparedStart) sampleSparedRun

/-- The bulk delete of the row that was matched to the adjustment leaves the adjustment and the pair
alone. -/
theorem sparesOthers_of_sampleSparedRun :
    sampleSparedDb.linkOf 2 = some 1 ∧
      (serveAll Request.step sampleDb sampleSparedStart).SparesOthers sampleSparedDb
        (serve Request.step sampleSparedDb (.bulkDelete 1 [2])) 2 := by
  have hadjustment : ∀ tx ∈ sampleSparedDb.transaction? 2 1,
      ∀ m ∈ sampleSparedDb.transactions.rows, tx.linkedTransactionId = some m.id →
        m.isManualAdjustment = true ∧ m.accountId ≠ tx.accountId := by
    decide +kernel
  refine ⟨by decide +kernel, sparesOthers_of_run sampleSparedStart_reachable
    sampleSparedRun_admits ⟨rfl, fun tx htx => .inr fun m hm hmget => ?_⟩⟩
  obtain ⟨hmanual, hacc⟩ := hadjustment tx htx m (Table.get?_mem hmget) hm
  exact ⟨hmanual, .inl hacc⟩

/-- A row on one account, and an imported row on another. -/
def sampleMatchStart : List Request :=
  [sampleAccount "Checking", sampleAccount "Savings", sampleCreate 1 .expense .settled,
    sampleImport 2 [.expense]]

theorem sampleMatchStart_reachable :
    (serveAll Request.step sampleDb sampleMatchStart).ReachableBy Request.LeavesReconciliation := by
  refine ⟨sampleDb, _, sampleDb_seeded, ?_, rfl⟩
  simp [sampleMatchStart, sampleAccount, sampleCreate, sampleImport, Request.LeavesReconciliation]

/-- The imported row is reopened and matched to the other row. -/
def sampleMatchRun : List Request :=
  [sampleMatch]

/-- Deleting the matched row removes the row it was matched to, and changes the balance of its
account. -/
theorem not_sparesOthers_of_sampleMatchRun :
    (serveAll Request.step sampleDb sampleMatchStart).ReachableBy Request.LeavesReconciliation ∧
      ¬(serveAll Request.step sampleDb sampleMatchStart).SparesOthers
        (serveAll Request.step (serveAll Request.step sampleDb sampleMatchStart) sampleMatchRun)
        (serve Request.step
          (serveAll Request.step (serveAll Request.step sampleDb sampleMatchStart) sampleMatchRun)
          (.delete 1 2)) 2 := by
  refine ⟨sampleMatchStart_reachable, fun h => ?_⟩
  have hthere : ((serveAll Request.step (serveAll Request.step sampleDb sampleMatchStart)
      sampleMatchRun).transactions.get? 1).isSome = true := by
    decide +kernel
  obtain ⟨u, hu⟩ := Option.isSome_iff_exists.mp hthere
  rcases h.removed 1 u hu (by decide +kernel) with hid | ⟨hlink, -⟩
  · exact absurd hid (by decide)
  · exact absurd hlink (by decide +kernel)

end Pfv
