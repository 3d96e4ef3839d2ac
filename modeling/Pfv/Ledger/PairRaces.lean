import Pfv.Ledger.Deletion
import Pfv.Ledger.Pairs
import Pfv.Services.PairSessions

/-!
# Links under concurrent requests

Requests that follow a link decide from an unlocked read which rows to lock. When the link has
changed until the locks are there, an update starts over, a delete leaves the former partner alone
and a conversion is refused; an unpair and a bulk delete go on with the rows they have locked. An
unpair then clears links that others point back to, and a bulk delete removes rows that nobody asked
for. Links stay symmetric, and every commit keeps to the rows it names and their partners, exactly
in the interleavings in which no unpair and no bulk delete does so.

## Main definitions

* `Db.Near names i`: a row is named, or a named row is linked to it.
* `PairPlan.Sound`: a commit leaves symmetric links and changes rows near the named ones only.
* `PairPlan.Fresh`: the rows of an unpair or a bulk delete are still linked as they were read.

## Main results

* `Request.step_eq_preview_bind`: the serial operations are the two steps in one.
* `PairPlan.sound_iff_fresh`: when a commit is sound.
* `sound_iff_fresh_of_interleaving`: when all commits of an interleaving are.
-/

namespace Pfv

/-! ### The serial operations -/

/-- The request of the ledger for a task. -/
def PairTask.toRequest : PairTask → Request
  | .update org id body today => .update org id body today
  | .delete org id => .delete org id
  | .bulkDelete org ids => .bulkDelete org ids
  | .pair org e i recategorize cat => .pair org e i recategorize cat
  | .convert org source dst recategorize cat => .convert org source dst recategorize cat
  | .unpair org id ec ic => .unpair org id ec ic

/-- A serial operation is its unlocked reads with its locked step right after them. -/
theorem Request.step_eq_preview_bind (db : Db) (r : PairTask) :
    Request.step db r.toRequest = r.preview db >>= fun p => p.write db := by
  cases r with
  | update org id body today =>
    simp only [PairTask.toRequest, Request.step, PairTask.preview, updateTransaction, bind_assoc,
      pure_bind, PairPlan.write, map_bind]
  | delete org id =>
    simp only [PairTask.toRequest, Request.step, PairTask.preview, deleteTransaction, bind_assoc,
      pure_bind, PairPlan.write]
  | bulkDelete org ids =>
    simp only [PairTask.toRequest, Request.step, PairTask.preview, bulkDeleteTransactions,
      pure_bind, PairPlan.write]
    split_ifs <;> rfl
  | pair org e i recategorize cat => rfl
  | convert org source dst recategorize cat =>
    simp only [PairTask.toRequest, Request.step, PairTask.preview, convertAndCreateLeg, bind_assoc,
      pure_bind, PairPlan.write]
  | unpair org id ec ic =>
    simp only [PairTask.toRequest, Request.step, PairTask.preview, unpairTransactions, bind_assoc,
      pure_bind, PairPlan.write]

/-! ### Sound commits -/

namespace Db

/-- A row is named, or a named row is linked to it. -/
def Near (db : Db) (names : List ℕ) (i : ℕ) : Prop :=
  i ∈ names ∨ ∃ n ∈ names, db.linkOf n = some i

instance (db : Db) (names : List ℕ) (i : ℕ) : Decidable (db.Near names i) :=
  inferInstanceAs (Decidable (_ ∨ ∃ n ∈ names, db.linkOf n = some i))

/-- Every row that is removed or changed is near the named ones. -/
def Confined (names : List ℕ) (db db' : Db) : Prop :=
  ∀ i t, db.transactions.get? i = some t → db'.transactions.get? i ≠ some t → db.Near names i

end Db

namespace PairPlan

/-- A commit leaves symmetric links, and removes and changes rows near the named ones only. -/
def Sound (db : Db) (p : PairPlan) : Prop :=
  ∀ db', p.write db = .ok db' → Pairing db'.linkOf ∧ Db.Confined p.named db db'

/-- An unpair that commits finds the row still linked to the one it was linked to, or neither
anything to clear: the row is not linked, and the other one is neither linked nor under another
category. A bulk delete finds every row that it has locked, adjustments apart, near the requested
ones. -/
def Fresh (db : Db) : PairPlan → Prop
  | .unpair org id linked expenseFallbackCategoryId incomeFallbackCategoryId =>
      (unpairLocked db org id linked expenseFallbackCategoryId
        incomeFallbackCategoryId).toOption.isSome →
      db.linkOf id = some linked ∨ db.linkOf id = none ∧
        ∀ u ∈ db.transactions.get? linked, u.unlink (if u.type = .expense then
          expenseFallbackCategoryId else incomeFallbackCategoryId) = u
  | .bulkDelete org requested ids => ∀ t ∈ db.bulkRows org ids, db.Near requested t.id
  | _ => True

instance (db : Db) : ∀ p : PairPlan, Decidable (Fresh db p)
  | .unpair org id linked ec ic =>
      inferInstanceAs (Decidable ((unpairLocked db org id linked ec ic).toOption.isSome →
        db.linkOf id = some linked ∨ db.linkOf id = none ∧
          ∀ u ∈ db.transactions.get? linked, u.unlink (if u.type = .expense then ec else ic) = u))
  | .bulkDelete org requested ids =>
      inferInstanceAs (Decidable (∀ t ∈ db.bulkRows org ids, db.Near requested t.id))
  | .update .. | .delete .. | .pair .. | .convert .. => .isTrue trivial

end PairPlan

section

variable {db db' : Db} {names ids : List ℕ}

/-! ### What the effects touch -/

theorem Db.Confined.of_eq (h : db'.transactions = db.transactions) : Confined names db db' :=
  fun i t ht hne => absurd (by rw [h, ht]) hne

/-- Revising a row touches that row. -/
theorem Db.confined_revise {t t' : Transaction} (hid : t'.id = t.id) (h : db.Near names t.id) :
    Confined names db (db.revise t t') := by
  intro i u hu hne
  rw [Db.get?_revise, hid] at hne
  split_ifs at hne with hi
  · exact hi ▸ h
  · exact absurd hu hne

/-- Deleting rows touches them and the rows linked to them. -/
theorem Db.confined_deleteTransactions (hpair : Pairing db.linkOf)
    (hrows : db'.transactions = (db.deleteTransactions ids).transactions)
    (h : ∀ i ∈ ids, (db.transactions.get? i).isSome → db.Near names i)
    (hback : ∀ i ∈ ids, ∀ j, db.linkOf i = some j → db.Near names j) : Confined names db db' := by
  intro i t ht hne
  rw [hrows, Db.get?_deleteTransactions, ht] at hne
  split_ifs at hne with hi
  · exact h i hi (by simp [ht])
  · -- The row was linked to a deleted one, which was linked back.
    have hlink : ∃ j ∈ ids, t.linkedTransactionId = some j := by
      by_contra hnone
      push Not at hnone
      refine hne (congrArg some ?_)
      unfold unlinkFrom
      rw [if_neg]
      simp only [Option.any_eq_true, decide_eq_true_eq, not_exists, not_and]
      exact fun j hj hmem => hnone j hmem hj
    obtain ⟨j, hj, hlink⟩ := hlink
    exact hback j hj i (hpair i j (Db.linkOf_eq_some.mpr ⟨t, ht, hlink⟩))

/-- A row linked to a row near the named ones is near them. -/
theorem Db.Near.linked (hpair : Pairing db.linkOf) {i j : ℕ} (h : db.Near names i)
    (hlink : db.linkOf i = some j) : db.Near names j := by
  rcases h with hi | ⟨n, hn, hni⟩
  · exact .inr ⟨i, hi, hlink⟩
  · rw [hpair n i hni, Option.some_inj] at hlink
    exact .inl (hlink ▸ hn)

theorem Db.confined_deleteTransactions_of_near (hpair : Pairing db.linkOf)
    (hrows : db'.transactions = (db.deleteTransactions ids).transactions)
    (h : ∀ i ∈ ids, db.Near names i) : Confined names db db' :=
  confined_deleteTransactions hpair hrows (fun i hi _ => h i hi) fun i hi _ hlink =>
    (h i hi).linked hpair hlink

/-- Linking two rows touches these two. -/
theorem Db.confined_linkRows {e i : Transaction} (hlink : db.Linkable e i) (cat : Option ℕ)
    (he : db.Near names e.id) (hi : db.Near names i.id) :
    Confined names db (db.linkRows e i cat) := by
  intro j t ht hne
  rw [Db.get?_linkRows hlink] at hne
  split_ifs at hne with hje hji
  · exact hje ▸ he
  · exact hji ▸ hi
  · exact absurd ht hne

theorem Db.Confined.congr {db'' : Db} (h : Confined names db db')
    (hrows : db''.transactions = db'.transactions) : Confined names db db'' := by
  unfold Confined at h ⊢
  rwa [hrows]

/-! ### What the locked steps do -/

variable {org id : ℕ}

/-- An update touches the named row and the row it is linked to. -/
theorem updateTransactionLocked_confined {body : TransactionUpdate} {today : Date}
    {edited : Transaction}
    (h : updateTransactionLocked db org id body today ids = .ok (db', edited)) :
    Db.Confined [id] db db' := by
  obtain ⟨tx, htx, -, rfl, -, hcase⟩ := updateTransactionLocked_ok h
  have hnear : db.Near [id] tx.id := .inl (by simp [Db.transaction?_id htx])
  rcases hcase with ⟨-, rfl⟩ | ⟨p, hpair, ⟨-, -, rfl⟩ | ⟨amount, -, rfl⟩⟩
  · exact Db.confined_revise rfl hnear
  · exact Db.confined_revise rfl hnear
  · intro i u hu hne
    rw [Db.get?_revise, Db.get?_revise] at hne
    by_cases hip : i = p.id
    · have hlink : db.linkOf id = some p.id := Db.linkOf_eq_some.mpr
        ⟨tx, (Db.transaction?_eq_some.mp htx).1, hpair.link⟩
      exact hip ▸ .inr ⟨id, by simp, hlink⟩
    by_cases hit : i = tx.id
    · exact hit ▸ hnear
    · exact absurd ((if_neg hip).trans ((if_neg hit).trans hu)) hne

theorem updateTransactionLocked_wellFormed {body : TransactionUpdate} {today : Date}
    {edited : Transaction} (hwf : db.WellFormed)
    (h : updateTransactionLocked db org id body today ids = .ok (db', edited)) :
    db'.WellFormed := by
  obtain ⟨tx, htx, -, rfl, hacc, hcase⟩ := updateTransactionLocked_ok h
  have hedited : db.RowOk (editTransaction tx body today) :=
    editTransaction_rowOk (hwf.row (Db.transaction?_self htx))
      ((Db.transaction?_eq_some.mp htx).2 ▸ hacc)
  rcases hcase with ⟨-, rfl⟩ | ⟨p, hpair, ⟨-, -, rfl⟩ | ⟨amount, -, rfl⟩⟩
  · exact hwf.revise hedited
  · exact hwf.revise hedited
  · have hp := mirrored_rowOk (hwf.row (Db.transaction?_self hpair.partner_mem)) amount
    exact (hwf.revise hedited).revise (hp.mono (Db.keepsAccounts_revise db _ _) le_rfl)

/-- A delete touches the named row and the row it is linked to. -/
theorem deleteTransactionLocked_confined (hpair : Pairing db.linkOf)
    (h : deleteTransactionLocked db org id ids = .ok db') : Db.Confined [id] db db' := by
  obtain ⟨tx, htx, -, rfl⟩ := deleteTransactionLocked_ok h
  have htxid := Db.transaction?_id htx
  refine Db.confined_deleteTransactions_of_near hpair (Db.deleteCascade_transactions db _ _)
    fun i hi => ?_
  rcases List.mem_cons.mp hi with rfl | hi
  · exact .inl (by simp [htxid])
  · obtain ⟨p, hp, rfl⟩ := List.mem_map.mp hi
    obtain ⟨l, hl, hrow⟩ := Option.bind_eq_some_iff.mp (Option.mem_toList.mp hp)
    have hpid : p.id = l := Db.transaction?_id (Db.rowsGet_lockRows.mp hrow).1
    exact .inr ⟨id, by simp, Db.linkOf_eq_some.mpr
      ⟨tx, (Db.transaction?_eq_some.mp htx).1, hpid ▸ hl⟩⟩

/-- A pairing touches the two named rows. -/
theorem pairExistingTransactions_confined {e i : ℕ} {recategorize : Bool} {cat : Option ℕ}
    (h : pairExistingTransactions db org e i recategorize cat = .ok db') :
    Db.Confined [e, i] db db' := by
  obtain ⟨et, it, db₁, cat, he, hi, hlink, hcat, rfl⟩ := pairExistingTransactions_ok h
  have hconfined : Db.Confined [e, i] db (db.linkRows et it cat) :=
    Db.confined_linkRows hlink cat (.inl (by simp [Db.transaction?_id he]))
      (.inl (by simp [Db.transaction?_id hi]))
  refine hconfined.congr ?_
  show (db₁.transactions.put _).put _ = (db.transactions.put _).put _
  rw [hcat.transactions]

/-- A conversion touches the named row: the other leg is new. -/
theorem convertLocked_confined {dst : ℕ} {recategorize : Bool} {cat : Option ℕ}
    (h : convertLocked db org id dst recategorize cat = .ok db') : Db.Confined [id] db db' := by
  obtain ⟨source, e, i, db₁, cat, hsource, -, -, hlink, hids, hcat, rfl⟩ := convertLocked_ok h
  have hconfined :
      Db.Confined [id] db ((db.post (partnerLeg org dst source)).linkRows e i cat) := by
    intro j t ht hne
    have hnext : j ≠ db.transactions.next := by
      rintro rfl
      rw [Table.get?_next] at ht
      cases ht
    rw [Db.get?_linkRows hlink, Db.get?_post, if_neg hnext] at hne
    have hsid := Db.transaction?_id hsource
    refine .inl (List.mem_singleton.mpr ?_)
    split_ifs at hne with hje hji
    · rcases hids with ⟨he, -⟩ | ⟨he, -⟩
      · rw [hje, he, hsid]
      · exact absurd (hje.trans he) hnext
    · rcases hids with ⟨-, hi⟩ | ⟨-, hi⟩
      · exact absurd (hji.trans hi) hnext
      · rw [hji, hi, hsid]
    · exact absurd ht hne
  refine hconfined.congr ?_
  show (db₁.transactions.put _).put _ = ((db.post _).transactions.put _).put _
  rw [hcat.transactions]

/-- A bulk delete removes the rows that it has locked, adjustments apart. -/
theorem write_bulkDelete_ok {requested : List ℕ}
    (h : (PairPlan.bulkDelete org requested ids).write db = .ok db') :
    db' = db ∨ db' = db.remove (db.bulkRows org ids) := by
  simp only [PairPlan.write] at h
  split_ifs at h
  · exact .inl (pure_eq_ok.mp h).symm
  · obtain ⟨⟨n, skipped⟩, h⟩ := map_fst_eq_ok.mp h
    exact .inr (bulkDeleteLocked_ok h)

/-- The row `linked` as an unpair leaves it. -/
theorem unpairLocked_linked {linked ec ic : ℕ}
    (h : unpairLocked db org id linked ec ic = .ok db') :
    id ≠ linked ∧ ∃ t u, db.transactions.get? id = some t ∧ db.transactions.get? linked = some u ∧
      db'.linkOf = Function.update (Function.update db.linkOf id none) linked none ∧
      db'.transactions.get? linked =
        some (u.unlink (if u.type = .expense then ec else ic)) ∧
      ∀ j, j ≠ id → j ≠ linked → db'.transactions.get? j = db.transactions.get? j := by
  obtain ⟨e, i, he, hi, -, -, het, hit, hids, rfl⟩ := unpairLocked_ok h
  have hne : e.id ≠ i.id := by
    intro hid
    rw [Table.get?_inj he hi hid, hit] at het
    cases het
  have hlinks := Db.linkOf_unlink he hi hne ec ic
  have heid : (e.unlink ec).id = e.id := rfl
  have hiid : (i.unlink ic).id = i.id := rfl
  have hother : ∀ j, j ≠ e.id → j ≠ i.id →
      ((db.putTransaction (e.unlink ec)).putTransaction (i.unlink ic)).transactions.get? j =
        db.transactions.get? j := fun j hje hji => by
    rw [Db.get?_putTransaction, Db.get?_putTransaction, heid, hiid, if_neg hji, if_neg hje]
  rcases hids with ⟨rfl, rfl⟩ | ⟨rfl, rfl⟩
  · refine ⟨hne, e, i, he, hi, hlinks, ?_, hother⟩
    rw [Db.get?_putTransaction, Db.get?_putTransaction, heid, hiid, if_pos rfl, if_neg hne.symm, hi]
    simp [hit]
  · refine ⟨hne.symm, i, e, hi, he, ?_, ?_, fun j hji hje => hother j hje hji⟩
    · rw [hlinks, Function.update_comm hne]
    · rw [Db.get?_putTransaction, Db.get?_putTransaction, heid, hiid, if_neg hne, if_pos rfl, he]
      simp [het]

end

/-! ### When a commit is sound -/

namespace PairPlan

variable {db db' : Db} {p : PairPlan}

theorem write_wellFormed (hwf : db.WellFormed) (h : p.write db = .ok db') : db'.WellFormed := by
  cases p with
  | update org id body today ids =>
    obtain ⟨edited, h⟩ := map_fst_eq_ok.mp h
    exact updateTransactionLocked_wellFormed hwf h
  | delete org id ids =>
    obtain ⟨tx, -, -, rfl⟩ := deleteTransactionLocked_ok h
    exact hwf.deleteCascade _ _
  | bulkDelete org requested ids =>
    rcases write_bulkDelete_ok h with rfl | rfl
    · exact hwf
    · exact hwf.remove _
  | pair org e i recategorize cat =>
    have hgrow : db.GrowsMany (fun _ => True) db' := pairExistingTransactions_grows h
    exact hgrow.wellFormed hwf
  | convert org source dst recategorize cat =>
    have hgrow : db.GrowsMany (fun _ => True) db' :=
      convertLocked_grows hwf (fun _ _ => trivial) h
    exact hgrow.wellFormed hwf
  | unpair org id linked ec ic =>
    obtain ⟨e, i, he, hi, -, -, -, -, -, rfl⟩ := unpairLocked_ok h
    have hi' := (hwf.row hi).unlink ic
    exact (hwf.putTransaction ((hwf.row he).unlink ec)).putTransaction
      (hi'.mono (.of_eq rfl) le_rfl)

/-- An unpair of two rows that are not linked keeps the pairs. -/
theorem unpairLocked_paired_of_unlinked {org id linked ec ic : ℕ} (hpaired : db.Paired)
    (h : unpairLocked db org id linked ec ic = .ok db') (hid : db.linkOf id = none)
    (hlinked : db.linkOf linked = none) : db'.Paired := by
  obtain ⟨hne, t, u, ht, hu, hlinks, -, hother⟩ := unpairLocked_linked h
  have hsame : db'.linkOf = db.linkOf := by
    rw [hlinks, ← hid, Function.update_eq_self, hid, ← hlinked, Function.update_eq_self]
  refine hpaired.of_linked (?_) (hsame ▸ hpaired.pairing) fun j t' l ht' hl => ?_
  · obtain ⟨e, i, -, -, -, -, -, -, -, rfl⟩ := unpairLocked_ok h
    exact .of_eq rfl
  · have hj : db.linkOf j = some l := hsame ▸ Db.linkOf_eq_some.mpr ⟨t', ht', hl⟩
    have hjid : j ≠ id := by
      rintro rfl
      rw [hid] at hj
      cases hj
    have hjlinked : j ≠ linked := by
      rintro rfl
      rw [hlinked] at hj
      cases hj
    rw [hother j hjid hjlinked] at ht'
    exact ⟨t', ht', hl, t'.sameLeg_refl⟩

/-- A fresh commit keeps the pairs. -/
theorem write_paired (hwf : db.WellFormed) (hpaired : db.Paired) (hfresh : p.Fresh db)
    (h : p.write db = .ok db') : db'.Paired := by
  cases p with
  | update org id body today ids =>
    obtain ⟨edited, h⟩ := map_fst_eq_ok.mp h
    exact updateTransactionLocked_paired hpaired h
  | delete org id ids =>
    obtain ⟨tx, -, -, rfl⟩ := deleteTransactionLocked_ok h
    exact hpaired.deleteCascade _ _
  | bulkDelete org requested ids =>
    rcases write_bulkDelete_ok h with rfl | rfl
    · exact hpaired
    · exact hpaired.remove _
  | pair org e i recategorize cat =>
    have hgrow : db.GrowsMany (fun _ => True) db' := pairExistingTransactions_grows h
    exact hgrow.paired hwf hpaired
  | convert org source dst recategorize cat =>
    have hgrow : db.GrowsMany (fun _ => True) db' :=
      convertLocked_grows hwf (fun _ _ => trivial) h
    exact hgrow.paired hwf hpaired
  | unpair org id linked ec ic =>
    have hwrite : unpairLocked db org id linked ec ic = .ok db' := h
    rcases hfresh (by rw [hwrite]; rfl) with hlink | ⟨hid, hsame⟩
    · obtain ⟨e, i, he, hi, -, -, het, hit, hids, rfl⟩ := unpairLocked_ok h
      have hne : e.id ≠ i.id := by
        intro hid
        rw [Table.get?_inj he hi hid, hit] at het
        cases het
      refine hpaired.unlink he hi ?_ hne ec ic
      rcases hids with ⟨rfl, rfl⟩ | ⟨rfl, rfl⟩
      · exact hlink
      · exact hpaired.pairing _ _ hlink
    · obtain ⟨-, t, u, -, hu, -⟩ := unpairLocked_linked h
      refine unpairLocked_paired_of_unlinked hpaired h hid ?_
      rw [Db.linkOf_of_get? hu, ← hsame u hu]
      rfl

/-- A fresh commit touches rows near the named ones only. -/
theorem write_confined (hpaired : db.Paired) (hfresh : p.Fresh db) (h : p.write db = .ok db') :
    Db.Confined p.named db db' := by
  have hpair := hpaired.pairing
  cases p with
  | update org id body today ids =>
    obtain ⟨edited, h⟩ := map_fst_eq_ok.mp h
    exact updateTransactionLocked_confined h
  | delete org id ids => exact deleteTransactionLocked_confined hpair h
  | bulkDelete org requested ids =>
    rcases write_bulkDelete_ok h with rfl | rfl
    · exact .of_eq rfl
    · refine Db.confined_deleteTransactions_of_near hpair (Db.remove_transactions db _)
        fun i hi => ?_
      obtain ⟨t, ht, rfl⟩ := List.mem_map.mp hi
      exact hfresh t ht
  | pair org e i recategorize cat => exact pairExistingTransactions_confined h
  | convert org source dst recategorize cat => exact convertLocked_confined h
  | unpair org id linked ec ic =>
    have hwrite : unpairLocked db org id linked ec ic = .ok db' := h
    obtain ⟨-, t, u, -, hu, -, hlinked, hother⟩ := unpairLocked_linked h
    intro j v hv hchanged
    by_cases hjid : j = id
    · exact .inl (by simp [PairPlan.named, hjid])
    by_cases hjl : j = linked
    · subst hjl
      rcases hfresh (by rw [hwrite]; rfl) with hlink | ⟨-, hsame⟩
      · exact .inr ⟨id, by simp [PairPlan.named], hlink⟩
      · rw [hu, Option.some_inj] at hv
        rw [hlinked, hsame u hu, hv] at hchanged
        exact absurd rfl hchanged
    · exact absurd ((hother j hjid hjl).trans hv) hchanged

/-- A sound unpair finds the row linked as it was read, or nothing to clear. -/
theorem fresh_of_sound_unpair {org id linked ec ic : ℕ} (hpaired : db.Paired)
    (h : (unpair org id linked ec ic).Sound db) : (unpair org id linked ec ic).Fresh db := by
  intro hcommits
  obtain ⟨db', hwrite⟩ : ∃ db', unpairLocked db org id linked ec ic = .ok db' := by
    cases hwrite : unpairLocked db org id linked ec ic with
    | error e => rw [hwrite] at hcommits; cases hcommits
    | ok db' => exact ⟨db', rfl⟩
  obtain ⟨hpair', hconfined⟩ := h db' hwrite
  obtain ⟨hne, t, u, ht, hu, hlinks, hlinked, -⟩ := unpairLocked_linked hwrite
  cases hlink : db.linkOf id with
  | some x =>
    refine .inl (congrArg some ?_)
    -- Otherwise the partner keeps its link to the row whose link is cleared.
    by_contra hx
    have hback := hpaired.pairing id x hlink
    have hxid : x ≠ id := by
      rintro rfl
      have hself := Db.linkOf_of_get? ht ▸ hlink
      exact (hpaired.legs ht hself ht).account_ne rfl
    have hkept : db'.linkOf x = some id := by
      rw [hlinks, Function.update_of_ne hx, Function.update_of_ne hxid, hback]
    have hcleared : db'.linkOf id = none := by
      rw [hlinks, Function.update_of_ne hne, Function.update_self]
    rw [hpair' x id hkept] at hcleared
    cases hcleared
  | none =>
    refine .inr ⟨rfl, fun v hv => ?_⟩
    rw [hu, Option.mem_some_iff] at hv
    subst hv
    by_contra hchanged
    have hnear : db.Near [id] linked := by
      refine hconfined linked u hu ?_
      rw [hlinked]
      exact fun heq => hchanged (Option.some_inj.mp heq)
    rcases hnear with hid | ⟨n, hn, hlinkn⟩
    · exact hne (List.mem_singleton.mp hid).symm
    · rw [List.mem_singleton.mp hn, hlink] at hlinkn
      cases hlinkn

/-- A sound bulk delete removes no row but those near the requested ones. -/
theorem fresh_of_sound_bulkDelete {org : ℕ} {requested ids : List ℕ} (hwf : db.WellFormed)
    (h : (bulkDelete org requested ids).Sound db) : (bulkDelete org requested ids).Fresh db := by
  intro t ht
  obtain ⟨hget, hmem, -⟩ := Db.mem_bulkRows.mp ht
  obtain ⟨⟨db', n, skipped⟩, hlocked⟩ := exists_bulkDeleteLocked hwf org requested ids
  have hwrite : (bulkDelete org requested ids).write db = .ok db' := by
    have hids : ids ≠ [] := List.ne_nil_of_mem hmem
    simp only [write, if_neg hids, hlocked]
    rfl
  refine (h db' hwrite).2 t.id t hget ?_
  rw [bulkDeleteLocked_ok hlocked, Db.remove_transactions, Db.get?_deleteTransactions,
    if_pos (List.mem_map_of_mem ht)]
  exact (Option.some_ne_none t).symm

/-- A commit is sound exactly when its rows are still linked as they were read. -/
theorem sound_iff_fresh (hwf : db.WellFormed) (hpaired : db.Paired) :
    p.Sound db ↔ p.Fresh db := by
  refine ⟨fun h => ?_, fun h db' hwrite =>
    ⟨(write_paired hwf hpaired h hwrite).pairing, write_confined hpaired h hwrite⟩⟩
  cases p with
  | bulkDelete org requested ids => exact fresh_of_sound_bulkDelete hwf h
  | unpair org id linked ec ic => exact fresh_of_sound_unpair hpaired h
  | update | delete | pair | convert => exact trivial

end PairPlan

/-! ### Every interleaving -/

/-- The state after an interleaving of requests. -/
def pairRun (db : Db) (ts : List (Turn PairTask)) : Running Db (Phase PairTask PairPlan) :=
  pairSystem.sessions.interleave { shared := db, live := [] } ts

/-- Every commit of an interleaving satisfies a condition. -/
def EveryCommit (ok : Db → PairPlan → Prop) (db : Db) (ts : List (Turn PairTask)) : Prop :=
  pairSystem.sessions.Respects (TwoStep.OnCommit ok) { shared := db, live := [] } ts

instance {ok : Db → PairPlan → Prop} [∀ db p, Decidable (ok db p)] (db : Db)
    (ts : List (Turn PairTask)) : Decidable (EveryCommit ok db ts) :=
  inferInstanceAs (Decidable (pairSystem.sessions.Respects _ _ ts))

/-- A preview changes nothing. -/
theorem pairSystem_check {db db' : Db} {r : PairTask} {p : PairPlan}
    (h : pairSystem.check db r = .ok (db', p)) : db' = db := by
  obtain ⟨q, -, hq⟩ := map_eq_ok.mp h
  exact (Prod.mk.inj hq).1.symm

/-- In every interleaving of requests on a ledger with symmetric links, all commits leave the links
symmetric and keep to the rows they name and their partners exactly when every unpair and every bulk
delete that commits finds its rows still linked as they were read; the links are symmetric at the
end then, and every pair is the two legs of a transfer. -/
theorem sound_iff_fresh_of_interleaving {db : Db} (hwf : db.WellFormed) (hpaired : db.Paired)
    (ts : List (Turn PairTask)) :
    (EveryCommit (fun db p => p.Sound db) db ts ↔ EveryCommit (fun db p => p.Fresh db) db ts) ∧
      (EveryCommit (fun db p => p.Fresh db) db ts → (pairRun db ts).shared.Paired) := by
  have hcheck : ∀ (d : Db) r d' p, (d.WellFormed ∧ d.Paired) → pairSystem.check d r = .ok (d', p) →
      d'.WellFormed ∧ d'.Paired := fun d r d' p hd h => pairSystem_check h ▸ hd
  have hcommit : ∀ (d : Db) p d', (d.WellFormed ∧ d.Paired) → p.Fresh d →
      pairSystem.commit d p = .ok d' → d'.WellFormed ∧ d'.Paired := fun d p d' hd hfresh h =>
    ⟨PairPlan.write_wellFormed hd.1 h, PairPlan.write_paired hd.1 hd.2 hfresh h⟩
  have hcongr : EveryCommit (fun db p => p.Fresh db) db ts ↔
      EveryCommit (fun db p => p.Sound db) db ts := TwoStep.respects_congr hcheck hcommit
    (fun d p hd => (PairPlan.sound_iff_fresh hd.1 hd.2).symm) ts ⟨hwf, hpaired⟩
  refine ⟨hcongr.symm, fun h => ?_⟩
  exact (TwoStep.interleave_invariant hcheck hcommit ts ⟨hwf, hpaired⟩ h).2

/-- A transfer between two accounts, and another income on the second. -/
def sampleTriangleRun : List Request :=
  [sampleAccount "Checking", sampleAccount "Savings", sampleTransfer,
    sampleCreate 2 .income .settled]

/-- An unpair of the transfer reads its partner; before it commits, the transfer is unpaired by
another request and its expense is paired with the other income. -/
def sampleStaleUnpair : List (Turn PairTask) :=
  [.start (.unpair 1 1 1 1), .advance 0, .start (.unpair 1 1 1 1), .advance 1, .advance 1,
    .start (.pair 1 1 3 false none), .advance 1, .advance 1, .advance 0]

/-- An unpair of the transfer runs while the bulk delete of the other income reads its rows; its
expense is paired with the income again. -/
def sampleFreshUnpair : List (Turn PairTask) :=
  [.start (.unpair 1 1 1 1), .start (.bulkDelete 1 [3]), .advance 0, .advance 1, .advance 0,
    .advance 0, .start (.pair 1 1 2 false none), .advance 0, .advance 0]

/-- The late commit clears a link that the other income points back to; without it all commits keep
to their rows, and the expense and the income are legs of a transfer at the end. -/
theorem sampleUnpairs_sound_iff_fresh :
    ¬EveryCommit (fun db p => p.Sound db) (serveAll Request.step sampleDb sampleTriangleRun)
        sampleStaleUnpair ∧
      EveryCommit (fun db p => p.Sound db) (serveAll Request.step sampleDb sampleTriangleRun)
        sampleFreshUnpair ∧
      (pairRun (serveAll Request.step sampleDb sampleTriangleRun) sampleFreshUnpair).shared.Paired ∧
      (pairRun (serveAll Request.step sampleDb sampleTriangleRun) sampleFreshUnpair).shared.linkOf
        1 = some 2 := by
  have hleaves : ∀ r ∈ sampleTriangleRun, r.LeavesReconciliation := by
    simp [sampleTriangleRun, sampleAccount, sampleTransfer, sampleCreate,
      Request.LeavesReconciliation]
  have hreach : (serveAll Request.step sampleDb sampleTriangleRun).ReachableBy
      Request.LeavesReconciliation := ⟨sampleDb, _, sampleDb_seeded, hleaves, rfl⟩
  have hstale : ¬EveryCommit (fun db p => p.Fresh db)
      (serveAll Request.step sampleDb sampleTriangleRun) sampleStaleUnpair := by decide +kernel
  have hfresh : EveryCommit (fun db p => p.Fresh db)
      (serveAll Request.step sampleDb sampleTriangleRun) sampleFreshUnpair := by decide +kernel
  have hlate := sound_iff_fresh_of_interleaving hreach.wellFormed hreach.paired sampleStaleUnpair
  have hearly := sound_iff_fresh_of_interleaving hreach.wellFormed hreach.paired sampleFreshUnpair
  exact ⟨mt hlate.1.mp hstale, hearly.1.mpr hfresh, hearly.2 hfresh, by decide +kernel⟩

end Pfv
