import Pfv.Ledger.BalanceLaw
import Pfv.Ledger.Pairs

/-!
# The two ways to delete a row

The single delete takes a pair off the balances when the requested row is settled, the bulk delete
looks at the status of each leg. On a ledger whose links are transfer pairs both remove the same
rows; they leave the same balances exactly when the two legs have the same status.

## Main definitions

* `Db.balance?`: the balance of an account.
* `Db.DeletesAgree`: the single delete and the bulk delete of a row leave the same ledger.

## Main results

* `serve_delete`, `serve_bulkDelete`: what the two deletes of a row do to a ledger without
  reconciliation.
* `deletesAgree_iff`: when the two agree.
-/

namespace Pfv

namespace Db

/-- The balance of an account. -/
def balance? (db : Db) (k : ℕ) : Option ℤ :=
  (db.accounts.get? k).map (·.balance)

theorem balance?_credit (db : Db) (a : ℕ) (x : ℤ) (k : ℕ) :
    (db.credit a x).balance? k = (db.balance? k).map fun b => if k = a then b + x else b := by
  rw [balance?, get?_credit, balance?, Option.map_map, Option.map_map]
  congr 1
  funext acct
  simp only [Function.comp_apply]
  split_ifs <;> rfl

@[simp] theorem balance?_deleteTransactions (db : Db) (ids : List ℕ) (k : ℕ) :
    (db.deleteTransactions ids).balance? k = db.balance? k := rfl

/-! ### Removing rows in another order -/

/-- Taking rows off the balances does not depend on their order. -/
theorem revertAll_perm (db : Db) {rows rows' : List Transaction} (h : rows.Perm rows') :
    db.revertAll rows = db.revertAll rows' :=
  h.foldl_eq' (fun _ _ _ _ d => credit_comm d _ _ _ _) db

theorem remove_perm (db : Db) {rows rows' : List Transaction} (h : rows.Perm rows') :
    db.remove rows = db.remove rows' := by
  rw [remove, remove, revertAll_perm db h]
  exact deleteTransactions_congr _ fun i => (h.map (·.id)).mem_iff

end Db

/-! ### The deletes succeed -/

section

variable {db : Db} {org id : ℕ} {tx : Transaction}

/-- The account of a locked row of a well-formed ledger can be locked. -/
theorem Db.WellFormed.account_of_lockRows (hwf : db.WellFormed) {ids : List ℕ} {t : Transaction}
    (ht : t ∈ db.lockRows org ids) : ∃ acct, db.account? t.accountId org = some acct := by
  obtain ⟨hget, -, horg⟩ := Db.mem_lockRows.mp ht
  exact horg ▸ (hwf.row hget).account

theorem Db.WellFormed.type_of_lockRows (hwf : db.WellFormed) {ids : List ℕ} {t : Transaction}
    (ht : t ∈ db.lockRows org ids) : t.type ≠ .transfer :=
  (hwf.row (Db.mem_lockRows.mp ht).1).type

theorem mem_of_rowsGet {rows : List Transaction} {i : ℕ} {t : Transaction}
    (h : rowsGet rows i = some t) : t ∈ rows :=
  List.mem_of_find?_eq_some h

/-- The balances of locked rows can be reverted. -/
theorem exists_revertDeleted (hwf : db.WellFormed) {ids : List ℕ} (linkedTx : Option Transaction)
    (htx : tx ∈ db.lockRows org ids) (hlinked : ∀ p ∈ linkedTx, p ∈ db.lockRows org ids) :
    ∃ db', revertDeleted db org tx linkedTx = .ok db' := by
  have hacc := hwf.account_of_lockRows htx
  have htype := hwf.type_of_lockRows htx
  cases linkedTx with
  | none =>
    unfold revertDeleted
    split_ifs
    · refine ⟨_, unit_bind_eq_ok.mpr ⟨lockAccounts_eq_ok.mpr ?_,
        revertBalance_eq_ok.mpr ⟨htype, rfl⟩⟩⟩
      simpa using hacc
    · exact ⟨db, rfl⟩
  | some p =>
    have hp := hlinked p rfl
    unfold revertDeleted
    split_ifs
    · refine ⟨_, unit_bind_eq_ok.mpr ⟨lockAccounts_eq_ok.mpr ?_, bind_eq_ok.mpr
        ⟨_, revertBalance_eq_ok.mpr ⟨htype, rfl⟩,
          revertBalance_eq_ok.mpr ⟨hwf.type_of_lockRows hp, rfl⟩⟩⟩⟩
      have hacc' := hwf.account_of_lockRows hp
      rcases le_total tx.accountId p.accountId with hle | hle
      · simp [min_eq_left hle, max_eq_right hle, hacc, hacc']
      · simp [min_eq_right hle, max_eq_left hle, hacc, hacc']
    · exact ⟨db, rfl⟩

theorem exists_deleteTransaction (hwf : db.WellFormed) (htx : db.transaction? id org = some tx)
    (hmanual : tx.isManualAdjustment = false) :
    ∃ db', deleteTransaction db org id = .ok db' := by
  unfold deleteTransaction pairPreview deleteTransactionLocked
  set ids := id :: tx.linkedTransactionId.toList with hids
  have hrow : rowsGet (db.lockRows org ids) id = some tx :=
    Db.rowsGet_lockRows.mpr ⟨htx, List.mem_cons_self⟩
  obtain ⟨db₁, hrevert⟩ := exists_revertDeleted hwf
    (tx.linkedTransactionId.bind (rowsGet (db.lockRows org ids))) (mem_of_rowsGet hrow)
      fun p hp => by
      obtain ⟨l, -, hl⟩ := Option.bind_eq_some_iff.mp hp
      exact mem_of_rowsGet hl
  refine ⟨_, bind_eq_ok.mpr ⟨ids, bind_eq_ok.mpr ⟨tx, orRaise_eq_ok.mpr htx, rfl⟩,
    bind_eq_ok.mpr ⟨tx, orRaise_eq_ok.mpr hrow, unit_bind_eq_ok.mpr
      ⟨raiseIf_eq_ok.mpr (by simp [hmanual]), bind_eq_ok.mpr ⟨db₁, hrevert, rfl⟩⟩⟩⟩⟩

theorem exists_foldlM_revertSettled {rows : List Transaction}
    (h : ∀ t ∈ rows, t.type ≠ .transfer) (db : Db) :
    ∃ db', rows.foldlM revertSettled db = .ok db' := by
  induction rows generalizing db with
  | nil => exact ⟨db, rfl⟩
  | cons t rows ih =>
    obtain ⟨db', hrest⟩ := ih (fun u hu => h u (List.mem_cons_of_mem t hu))
      (db.credit t.accountId (-t.settledAmount))
    refine ⟨db', ?_⟩
    rw [List.foldlM_cons, bind_eq_ok]
    exact ⟨_, revertSettled_eq_ok.mpr ⟨fun _ => h t List.mem_cons_self, rfl⟩, hrest⟩

theorem exists_bulkDeleteLocked (hwf : db.WellFormed) (org : ℕ) (requested ids : List ℕ) :
    ∃ r, bulkDeleteLocked db org requested ids = .ok r := by
  have hmem : ∀ t ∈ db.bulkRows org ids, t ∈ db.lockRows org ids :=
    fun t ht => (List.mem_filter.mp ht).1
  obtain ⟨db₁, hrevert⟩ := exists_foldlM_revertSettled
    (fun t ht => hwf.type_of_lockRows (hmem t ht)) db
  refine ⟨_, unit_bind_eq_ok.mpr ⟨lockAccounts_eq_ok.mpr fun a ha => ?_,
    bind_eq_ok.mpr ⟨db₁, hrevert, rfl⟩⟩⟩
  obtain ⟨t, ht, rfl⟩ := List.mem_map.mp ha
  exact hwf.account_of_lockRows (hmem t (List.mem_filter.mp ht).1)

/-! ### What the deletes do -/

/-- The row of the organisation a row is linked to. -/
def Db.linked (db : Db) (org : ℕ) (tx : Transaction) : Option Transaction :=
  tx.linkedTransactionId.bind fun l => db.transaction? l org

theorem Db.linked_eq_some {p : Transaction} : db.linked org tx = some p ↔
    tx.linkedTransactionId = some p.id ∧ db.transaction? p.id org = some p := by
  unfold Db.linked
  rw [Option.bind_eq_some_iff]
  constructor
  · rintro ⟨l, hl, hp⟩
    obtain rfl := Db.transaction?_id hp
    exact ⟨hl, hp⟩
  · rintro ⟨hl, hp⟩
    exact ⟨p.id, hl, hp⟩

/-- The single delete of a row that is not a manual adjustment. -/
theorem serve_delete (hwf : db.WellFormed) (htx : db.transaction? id org = some tx)
    (hmanual : tx.isManualAdjustment = false) :
    serve Request.step db (.delete org id) = db.deleteCascade tx (db.linked org tx) := by
  obtain ⟨db', h⟩ := exists_deleteTransaction hwf htx hmanual
  obtain ⟨tx', htx', -, rfl⟩ := deleteTransaction_ok h
  rw [htx, Option.some_inj] at htx'
  subst htx'
  exact serve_of_ok h

theorem lockRows_singleton_perm (htx : db.transaction? id org = some tx) :
    db.lockRows org [id] = [tx] := by
  refine List.perm_singleton.mp ((List.perm_ext_iff_of_nodup ?_ (List.nodup_singleton tx)).mpr ?_)
  · exact (db.transactions.nodup.of_map).filter _
  intro t
  obtain ⟨hget, horg⟩ := Db.transaction?_eq_some.mp htx
  rw [Db.mem_lockRows, List.mem_singleton, List.mem_singleton]
  constructor
  · rintro ⟨ht, hid, -⟩
    rw [hid, hget, Option.some_inj] at ht
    exact ht.symm
  · rintro rfl
    exact ⟨Table.get?_self hget, Table.get?_id hget, horg⟩

/-- The bulk delete of one row removes the row and the row it is linked to, manual adjustments
apart. -/
theorem bulkRows_singleton_perm (htx : db.transaction? id org = some tx)
    (hmanual : tx.isManualAdjustment = false) (hself : tx.linkedTransactionId ≠ some id) :
    (db.bulkRows org (bulkDeletePreview db org [id])).Perm
      (tx :: (db.linked org tx).toList.filter (!·.isManualAdjustment)) := by
  have hid := Db.transaction?_id htx
  have hget := Db.transaction?_self htx
  have horg := (Db.transaction?_eq_some.mp htx).2
  refine (List.perm_ext_iff_of_nodup (Db.bulkRows_nodup db _ _).of_map ?_).mpr fun t => ?_
  · refine List.nodup_cons.mpr ⟨fun hmem => ?_, ?_⟩
    · have hlinked := Option.mem_toList.mp (List.mem_filter.mp hmem).1
      exact hself (hid ▸ (Db.linked_eq_some.mp hlinked).1)
    · refine List.Nodup.filter _ ?_
      cases db.linked org tx <;> simp
  have hids : ∀ i, i ∈ bulkDeletePreview db org [id] ↔
      i = tx.id ∨ tx.linkedTransactionId = some i := by
    intro i
    simp [bulkDeletePreview, lockRows_singleton_perm htx]
  rw [Db.mem_bulkRows, hids, List.mem_cons, List.mem_filter, Option.mem_toList,
    Db.linked_eq_some, Bool.not_eq_true', Db.transaction?_eq_some]
  constructor
  · rintro ⟨ht, hrow | hlink, htorg, hm⟩
    · exact .inl (Table.get?_inj ht hget hrow)
    · exact .inr ⟨⟨hlink, ht, htorg⟩, hm⟩
  · rintro (rfl | ⟨⟨hlink, ht, htorg⟩, hm⟩)
    · exact ⟨hget, .inl rfl, horg, hmanual⟩
    · exact ⟨ht, .inr hlink, htorg, hm⟩

/-- The bulk delete of a row that is not a manual adjustment. -/
theorem serve_bulkDelete (hwf : db.WellFormed) (htx : db.transaction? id org = some tx)
    (hmanual : tx.isManualAdjustment = false) (hself : tx.linkedTransactionId ≠ some id) :
    serve Request.step db (.bulkDelete org [id]) =
      db.remove (tx :: (db.linked org tx).toList.filter (!·.isManualAdjustment)) := by
  obtain ⟨⟨db', n, skipped⟩, h⟩ :=
    exists_bulkDeleteLocked hwf org [id] (bulkDeletePreview db org [id])
  have hne : bulkDeletePreview db org [id] ≠ [] := by
    simp [bulkDeletePreview, lockRows_singleton_perm htx]
  have hstep : Request.step db (.bulkDelete org [id]) = .ok db' := by
    refine map_fst_eq_ok.mpr ⟨(n, skipped), ?_⟩
    have hdups : ([id] : List ℕ).eraseDups = [id] := rfl
    simp only [bulkDeleteTransactions, hdups]
    rw [if_neg hne, h]
  rw [serve_of_ok hstep, bulkDeleteLocked_ok h]
  exact db.remove_perm (bulkRows_singleton_perm htx hmanual hself)

/-- Neither delete of a row that is not there changes anything. -/
theorem serve_deletes_of_none (h : db.transaction? id org = none) :
    serve Request.step db (.delete org id) = db ∧
      serve Request.step db (.bulkDelete org [id]) = db := by
  constructor
  · refine (serve_cases _ _ _).resolve_left fun hok => ?_
    obtain ⟨tx, htx, -⟩ := deleteTransaction_ok hok
    rw [h] at htx
    exact absurd htx (by simp)
  · have hlock : db.lockRows org [id] = [] := by
      refine List.eq_nil_iff_forall_not_mem.mpr fun t ht => ?_
      obtain ⟨hget, hid, horg⟩ := Db.mem_lockRows.mp ht
      rw [List.mem_singleton.mp hid] at hget
      rw [Db.transaction?_eq_some.mpr ⟨hget, horg⟩] at h
      exact absurd h (by simp)
    refine serve_of_ok (map_fst_eq_ok.mpr ⟨(0, [id]), ?_⟩)
    have hdups : ([id] : List ℕ).eraseDups = [id] := rfl
    simp only [bulkDeleteTransactions, hdups, bulkDeletePreview, hlock]
    rfl

/-! ### When the two agree -/

/-- The single delete and the bulk delete of a row leave the same rows and the same balances, and
take every removed row off the balance of its account by its settled amount. -/
structure Db.DeletesAgree (db : Db) (org id : ℕ) : Prop where
  rows : ∀ i, (serve Request.step db (.delete org id)).transactions.get? i =
    (serve Request.step db (.bulkDelete org [id])).transactions.get? i
  balance : ∀ k, (serve Request.step db (.delete org id)).balance? k =
    (serve Request.step db (.bulkDelete org [id])).balance? k
  reverted : ∀ k, (serve Request.step db (.delete org id)).drift Transaction.settledAmount k =
    db.drift Transaction.settledAmount k

/-- Removing rows of a ledger takes them off by their settled amounts. -/
theorem Db.drift_remove_settled (hwf : db.WellFormed) {rows : List Transaction}
    (hnodup : (rows.map (·.id)).Nodup) (hmem : ∀ t ∈ rows, db.transactions.get? t.id = some t)
    (k : ℕ) :
    (db.remove rows).drift Transaction.settledAmount k =
      db.drift Transaction.settledAmount k := by
  cases hk : db.accounts.get? k with
  | none =>
    have hk' : (db.remove rows).accounts.get? k = none := by
      have := Db.isSome_get?_revertAll rows db k
      rw [hk] at this
      simpa [Db.remove] using this
    rw [Db.drift_of_get?_eq_none hwf hk, Db.drift_of_get?_eq_none (hwf.remove rows) hk']
  | some acct =>
    exact drift_remove (by simp [hk]) hnodup hmem (fun _ _ => rfl) fun _ t _ _ =>
      (entryWeight_settledAmount 0).entry (Db.sameEntry_unlinkFrom _ t)

/-- A settled row of a pair with an amount moves the balance of its account. -/
theorem Transaction.signed_ne_zero {t : Transaction} (htype : t.type ≠ .transfer)
    (hamount : t.amount ≠ 0) : t.type.signed t.amount ≠ 0 := by
  cases ht : t.type with
  | income => exact hamount
  | expense => exact neg_ne_zero.mpr hamount
  | transfer => exact absurd ht htype

theorem Db.balance?_deleteCascade_pair {p : Transaction} (hacc : p.accountId ≠ tx.accountId) {b : ℤ}
    (hb : db.balance? p.accountId = some b) :
    (db.deleteCascade tx (some p)).balance? p.accountId =
      some (b - if tx.status = .settled then p.type.signed p.amount else 0) := by
  unfold Db.deleteCascade
  split_ifs <;> simp [balance?_credit, hb, hacc, sub_eq_add_neg]

theorem Db.balance?_remove_pair {p : Transaction} (hacc : p.accountId ≠ tx.accountId) {b : ℤ}
    (hb : db.balance? p.accountId = some b) :
    (db.remove [tx, p]).balance? p.accountId = some (b - p.settledAmount) := by
  simp [Db.remove, Db.revertAll, balance?_credit, hb, hacc, sub_eq_add_neg]

/-- The deletes of one leg of a pair leave the same balance on the account of the other leg only
if that leg has the same status or no amount. -/
theorem Db.status_eq_of_balance {p : Transaction} (hacc : p.accountId ≠ tx.accountId) {b : ℤ}
    (hb : db.balance? p.accountId = some b) (htype : p.type ≠ .transfer)
    (h : (db.deleteCascade tx (some p)).balance? p.accountId =
      (db.remove [tx, p]).balance? p.accountId) : p.status = tx.status ∨ p.amount = 0 := by
  rw [balance?_deleteCascade_pair hacc hb, balance?_remove_pair hacc hb, Option.some_inj,
    sub_right_inj] at h
  by_contra hne
  obtain ⟨hstatus, hamount⟩ := not_or.mp hne
  have hsigned := Transaction.signed_ne_zero htype hamount
  unfold Transaction.settledAmount at h
  cases htx : tx.status <;> cases hp : p.status <;> simp_all

/-- The single delete of a leg removes both legs as the bulk delete does, when the legs have the
same status or no amount. -/
theorem Db.deleteCascade_eq_remove_of {p : Transaction} (hamount : p.amount = tx.amount)
    (h : p.status = tx.status ∨ p.amount = 0) :
    db.deleteCascade tx (some p) = db.remove [tx, p] := by
  rcases h with hstatus | hzero
  · exact db.deleteCascade_eq_remove hstatus
  · have hsigned : ∀ ty : TransactionType, ty.signed 0 = 0 := by
      intro ty
      cases ty <;> rfl
    have hzero' : tx.amount = 0 := hamount ▸ hzero
    have hids : ∀ i, i ∈ [p.id, tx.id] ↔ i ∈ [tx, p].map (·.id) := by
      intro i
      simp [or_comm]
    have hsettled : ∀ t ∈ [tx, p], t.settledAmount = 0 := by
      simp [Transaction.settledAmount, hzero, hzero', hsigned]
    rw [remove_of_settledAmount_eq_zero db hsettled, ← deleteTransactions_congr db hids,
      deleteCascade, hzero, hzero', hsigned, hsigned, neg_zero, credit_zero, credit_zero, ite_self]

/-- Two deletes that remove the same rows agree. -/
theorem Db.DeletesAgree.of_remove (hwf : db.WellFormed) {rows : List Transaction}
    (hnodup : (rows.map (·.id)).Nodup) (hmem : ∀ t ∈ rows, db.transactions.get? t.id = some t)
    (hdelete : serve Request.step db (.delete org id) = db.remove rows)
    (hbulk : serve Request.step db (.bulkDelete org [id]) = db.remove rows) :
    db.DeletesAgree org id where
  rows i := by rw [hdelete, hbulk]
  balance k := by rw [hdelete, hbulk]
  reverted k := by rw [hdelete, drift_remove_settled hwf hnodup hmem]

/-- On a ledger of transfer pairs the single delete and the bulk delete of a row agree exactly when
the partner of the row has the same status, or the pair has no amount. -/
theorem deletesAgree_iff (hreach : db.ReachableBy Request.LeavesReconciliation)
    (hmanual : ∀ tx, db.transaction? id org = some tx → tx.isManualAdjustment = false) :
    db.DeletesAgree org id ↔ ∀ tx p, db.transaction? id org = some tx →
      tx.linkedTransactionId = some p.id → db.transactions.get? p.id = some p →
      p.status = tx.status ∨ p.amount = 0 := by
  have hwf := hreach.wellFormed
  have hpaired := hreach.paired
  cases htx : db.transaction? id org with
  | none =>
    obtain ⟨hdelete, hbulk⟩ := serve_deletes_of_none htx
    simp only [reduceCtorEq, false_implies, implies_true, iff_true]
    exact ⟨fun i => by rw [hdelete, hbulk], fun k => by rw [hdelete, hbulk],
      fun k => by rw [hdelete]⟩
  | some tx =>
    have hget := Db.transaction?_self htx
    have horg := (Db.transaction?_eq_some.mp htx).2
    have hid := Db.transaction?_id htx
    have hself : tx.linkedTransactionId ≠ some id := by
      intro hl
      obtain ⟨p, hp, -, hlegs⟩ := hpaired.partner hget hl
      rw [← hid, hget, Option.some_inj] at hp
      exact hlegs.account_ne (by rw [hp])
    have hdelete := serve_delete hwf htx (hmanual tx htx)
    have hbulk := serve_bulkDelete hwf htx (hmanual tx htx) hself
    cases hlinked : db.linked org tx with
    | none =>
      -- The row has no partner, and both deletes remove it alone.
      rw [hlinked] at hdelete hbulk
      have halone : serve Request.step db (.delete org id) = db.remove [tx] := hdelete
      refine iff_of_true (.of_remove hwf (by simp) (by simpa using hget) halone hbulk) ?_
      rintro _ p ⟨rfl⟩ hl -
      obtain ⟨q, hq, -, hlegs⟩ := hpaired.partner hget hl
      have hqid : q.id = p.id := Table.get?_id hq
      have hsome : db.linked org tx = some q := Db.linked_eq_some.mpr
        ⟨by rw [hqid, hl],
          Db.transaction?_eq_some.mpr ⟨Table.get?_self hq, hlegs.org_eq.trans horg⟩⟩
      rw [hlinked] at hsome
      exact absurd hsome (by simp)
    | some p =>
      obtain ⟨hl, hp⟩ := Db.linked_eq_some.mp hlinked
      have hpget := Db.transaction?_self hp
      have hlegs := hpaired.legs hget hl hpget
      have hrows : [p].filter (!·.isManualAdjustment) = [p] := by simp [hlegs.manual.2]
      rw [hlinked] at hdelete hbulk
      rw [Option.toList_some, hrows] at hbulk
      constructor
      · rintro hagree _ q ⟨rfl⟩ hlq hq
        have hqp : q = p := by
          refine Table.get?_inj hq hpget ?_
          rw [hl, Option.some_inj] at hlq
          exact hlq.symm
        subst hqp
        obtain ⟨acct, hacct⟩ := (hwf.row hpget).account
        have hb : db.balance? q.accountId = some acct.balance := by
          rw [Db.balance?, (Db.account?_eq_some.mp hacct).1, Option.map_some]
        have hbalance := hagree.balance q.accountId
        rw [hdelete, hbulk] at hbalance
        exact Db.status_eq_of_balance hlegs.account_ne hb (hwf.row hpget).type hbalance
      · intro h
        have hne : tx.id ≠ p.id := by
          intro heq
          exact hself (by rw [hl, ← heq, hid])
        rw [Db.deleteCascade_eq_remove_of hlegs.amount_eq (h tx p rfl hl hpget)] at hdelete
        exact .of_remove hwf (by simpa using hne) (by simp [hget, hpget]) hdelete hbulk

end

/-- A settled transfer. -/
def equalPairRun : List Request :=
  [sampleAccount "Checking", sampleAccount "Savings", sampleTransfer]

theorem equalPairRun_leaves : ∀ r ∈ equalPairRun, r.LeavesReconciliation := by
  simp [equalPairRun, sampleAccount, sampleTransfer, Request.LeavesReconciliation]

/-- The two deletes agree on a leg of that transfer. -/
theorem deletesAgree_of_equalPairRun :
    (serveAll Request.step sampleDb equalPairRun).DeletesAgree 1 2 := by
  refine (deletesAgree_iff ⟨sampleDb, _, sampleDb_seeded, equalPairRun_leaves, rfl⟩
    fun tx htx => ?_).mpr fun tx p htx _ hp => .inl ?_
  · have hrows : ∀ t ∈ (serveAll Request.step sampleDb equalPairRun).transactions.rows,
        t.isManualAdjustment = false := by
      decide
    exact hrows tx (Table.get?_mem (Db.transaction?_eq_some.mp htx).1)
  · have hrows : ∀ t ∈ (serveAll Request.step sampleDb equalPairRun).transactions.rows,
        t.status = .settled := by
      decide
    rw [hrows p (Table.get?_mem hp), hrows tx (Table.get?_mem (Db.transaction?_eq_some.mp htx).1)]

/-- A settled transfer, one leg of which is then marked as pending. -/
def unequalPairRun : List Request :=
  equalPairRun ++ [.update 1 1 { status := some .pending, description_ok := by simp } sampleDate]

theorem unequalPairRun_leaves : ∀ r ∈ unequalPairRun, r.LeavesReconciliation := by
  simp [unequalPairRun, equalPairRun, sampleAccount, sampleTransfer, Request.LeavesReconciliation]

/-- Deleting the settled leg of that transfer takes the pending leg off the balance too. -/
theorem not_deletesAgree_of_unequalPairRun :
    (serveAll Request.step sampleDb unequalPairRun).ReachableBy Request.LeavesReconciliation ∧
      ((serveAll Request.step sampleDb unequalPairRun).transaction? 2 1).map
        (·.isManualAdjustment) = some false ∧
      ((serveAll Request.step sampleDb unequalPairRun).transaction? 1 1).map
        (·.isManualAdjustment) = some false ∧
      ¬(serveAll Request.step sampleDb unequalPairRun).DeletesAgree 1 2 := by
  refine ⟨⟨sampleDb, _, sampleDb_seeded, unequalPairRun_leaves, rfl⟩, by decide, by decide,
    fun h => ?_⟩
  exact absurd (h.balance 1) (by decide)

end Pfv
