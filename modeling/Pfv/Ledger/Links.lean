import Pfv.Base.Pairing
import Pfv.Ledger.Requests

/-!
# The links of the ledger

`linked_transaction_id` as a partial function on the ids of the rows, and how each effect changes
it. A transfer pair is two rows that this function sends to each other.

## Main definitions

* `Db.linkOf`: the id a row is linked to.

## Main results

* `Db.linkOf_putTransaction`, `Db.linkOf_post`, `Db.linkOf_linkRows`,
  `Db.linkOf_deleteTransactions`.
* `Db.Grows.pairing`: adding to the ledger keeps its links a pairing.
-/

namespace Pfv

namespace Db

variable {db db' : Db}

/-- The id a row is linked to. -/
def linkOf (db : Db) (i : ℕ) : Option ℕ :=
  (db.transactions.get? i).bind (·.linkedTransactionId)

theorem linkOf_eq_some {i l : ℕ} : db.linkOf i = some l ↔
    ∃ t, db.transactions.get? i = some t ∧ t.linkedTransactionId = some l := by
  simp [linkOf, Option.bind_eq_some_iff]

theorem linkOf_of_get? {i : ℕ} {t : Transaction} (h : db.transactions.get? i = some t) :
    db.linkOf i = t.linkedTransactionId := by
  simp [linkOf, h]

theorem linkOf_eq_none_of_get? {i : ℕ} (h : db.transactions.get? i = none) :
    db.linkOf i = none := by
  simp [linkOf, h]

theorem linkOf_congr (h : db'.transactions = db.transactions) : db'.linkOf = db.linkOf := by
  unfold linkOf
  rw [h]

theorem linkOf_putTransaction {t t₀ : Transaction} (h : db.transactions.get? t.id = some t₀) :
    (db.putTransaction t).linkOf = Function.update db.linkOf t.id t.linkedTransactionId := by
  funext i
  by_cases hi : i = t.id
  · subst hi
    rw [Function.update_self, linkOf_of_get? (get?_putTransaction_self h)]
  · rw [Function.update_of_ne hi, linkOf, get?_putTransaction_of_ne db hi, linkOf]

/-- Rewriting a row without changing its link changes no link. -/
theorem linkOf_putTransaction_of_eq {t t₀ : Transaction}
    (h : db.transactions.get? t.id = some t₀)
    (hlink : t.linkedTransactionId = t₀.linkedTransactionId) :
    (db.putTransaction t).linkOf = db.linkOf := by
  rw [linkOf_putTransaction h, hlink, ← linkOf_of_get? h, Function.update_eq_self]

theorem linkOf_post {t : Transaction} (h : t.linkedTransactionId = none) :
    (db.post t).linkOf = db.linkOf := by
  funext i
  unfold linkOf
  rw [get?_post]
  split_ifs with hi
  · rw [hi, Table.get?_next]
    simp [h]
  · rfl

theorem linkOf_mapRows {f : Transaction → Transaction} {hf}
    (h : ∀ t ∈ db.transactions.rows, (f t).linkedTransactionId = t.linkedTransactionId) :
    linkOf { db with transactions := db.transactions.mapRows f hf } = db.linkOf := by
  funext i
  unfold linkOf
  rw [Table.get?_mapRows]
  cases hi : db.transactions.get? i with
  | none => rfl
  | some t => exact h t (Table.get?_mem hi)

theorem linkOf_linkRows {e i : Transaction} (h : db.Linkable e i) (cat : Option ℕ) :
    (db.linkRows e i cat).linkOf =
      Function.update (Function.update db.linkOf e.id (some i.id)) i.id (some e.id) := by
  have hi : (db.putTransaction (e.linkTo i.id cat)).transactions.get? i.id = some i :=
    (get?_putTransaction_of_ne db (t := e.linkTo i.id cat) h.id_ne.symm).trans h.income_mem
  rw [linkRows, linkOf_putTransaction (t := i.linkTo e.id cat) hi,
    linkOf_putTransaction (t := e.linkTo i.id cat) h.expense_mem]
  rfl

theorem linkOf_unlink {e i : Transaction} (he : db.transactions.get? e.id = some e)
    (hi : db.transactions.get? i.id = some i) (hne : e.id ≠ i.id) (ec ic : ℕ) :
    ((db.putTransaction (e.unlink ec)).putTransaction (i.unlink ic)).linkOf =
      Function.update (Function.update db.linkOf e.id none) i.id none := by
  have hi' : (db.putTransaction (e.unlink ec)).transactions.get? i.id = some i :=
    (get?_putTransaction_of_ne db (t := e.unlink ec) hne.symm).trans hi
  rw [linkOf_putTransaction (t := i.unlink ic) hi', linkOf_putTransaction (t := e.unlink ec) he]
  rfl

/-- Deleting rows forgets their links and the links to them. -/
theorem linkOf_deleteTransactions (ids : List ℕ) (db : Db) :
    (db.deleteTransactions ids).linkOf =
      fun i => if i ∈ ids then none else (db.linkOf i).filter fun j => ¬j ∈ ids := by
  funext i
  unfold linkOf
  rw [get?_deleteTransactions]
  split_ifs with hi
  · rfl
  · cases db.transactions.get? i with
    | none => rfl
    | some t =>
      ext l
      simp [unlinkFrom_link_eq_some, Option.filter_eq_some_iff]

theorem linkOf_revise {t t' : Transaction} (h : db.transactions.get? t.id = some t)
    (hid : t'.id = t.id) (hlink : t'.linkedTransactionId = t.linkedTransactionId) :
    (db.revise t t').linkOf = db.linkOf :=
  @linkOf_putTransaction_of_eq (db.credit t.accountId (-t.settledAmount)) t' t (hid ▸ h) hlink

theorem linkOf_remove (db : Db) (rows : List Transaction) :
    (db.remove rows).linkOf = (db.deleteTransactions (rows.map (·.id))).linkOf := by
  refine linkOf_congr ?_
  rw [remove, revertAll_eq]
  rfl

theorem linkOf_deleteCascade (db : Db) (tx : Transaction) (linkedTx : Option Transaction) :
    (db.deleteCascade tx linkedTx).linkOf =
      (db.deleteTransactions (tx.id :: linkedTx.toList.map (·.id))).linkOf :=
  linkOf_congr (deleteCascade_transactions db tx linkedTx)

/-! ### Pairings -/

theorem pairing_deleteTransactions (h : Pairing db.linkOf) (ids : List ℕ) :
    Pairing (db.deleteTransactions ids).linkOf := by
  rw [linkOf_deleteTransactions]
  exact h.restrict (· ∈ ids)

theorem pairing_linkRows (h : Pairing db.linkOf) {e i : Transaction} (hlink : db.Linkable e i)
    (cat : Option ℕ) : Pairing (db.linkRows e i cat).linkOf := by
  rw [linkOf_linkRows hlink]
  refine h.link_two ?_ ?_ hlink.id_ne
  · rw [linkOf_of_get? hlink.expense_mem, hlink.expense_unlinked]
  · rw [linkOf_of_get? hlink.income_mem, hlink.income_unlinked]

theorem pairing_unlink (h : Pairing db.linkOf) {e i : Transaction}
    (he : db.transactions.get? e.id = some e) (hi : db.transactions.get? i.id = some i)
    (hlink : db.linkOf e.id = some i.id) (hne : e.id ≠ i.id) (ec ic : ℕ) :
    Pairing ((db.putTransaction (e.unlink ec)).putTransaction (i.unlink ic)).linkOf := by
  rw [linkOf_unlink he hi hne]
  exact h.unlink_two hlink

/-- Adding to the ledger keeps its links a pairing. -/
theorem Grows.pairing {P : Transaction → Prop} (h : Grows P db db') (hpair : Pairing db.linkOf) :
    Pairing db'.linkOf := by
  cases h with
  | openAccount | addCategory | setTemplates => exact hpair
  | post t hrow hnew =>
    rw [linkOf_post hnew.link]
    exact hpair
  | link e i cat h => exact pairing_linkRows hpair h cat
  | retemplate f hf h =>
    rw [linkOf_mapRows fun t ht => by rw [h t ht]]
    exact hpair
  | openBatch ids org b hf =>
    have hlink : ∀ t ∈ db.transactions.rows,
        (t.assignBatch ids org db.importBatches.next).linkedTransactionId =
          t.linkedTransactionId := fun t _ => by rw [assignBatch_eq]
    exact (linkOf_mapRows hlink : _ = db.linkOf) ▸ hpair

end Db

end Pfv
