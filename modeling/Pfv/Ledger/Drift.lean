import Pfv.Ledger.Requests

/-!
# Balanced ledgers

A ledger is balanced for a weight of its rows when every account holds its opening balance and the
weights of the rows on it. Adding to a ledger keeps it balanced for every weight that looks at the
entry of a row alone and gives a new row its settled amount; the effects of the other operations
keep it under conditions on the rows they touch.

## Main definitions

* `Db.Balanced w`: no account drifts from the weights of its rows.
* `EntryWeight w n`: `w` looks at the entry of a row, and gives the rows stored from the id `n` on
  their settled amounts.

## Main results

* `Db.GrowsMany.balanced`: adding to a ledger keeps it balanced.
* `Db.Balanced.revise`, `Db.Balanced.remove`, `Db.Balanced.unlink`.
* `Db.settledSum`, `Db.balanced_settledAmount_iff`: balanced for settled amounts, in terms of
  income and expense.
-/

namespace Pfv

/-- A weight that looks at the entry of a row alone, and by which new rows weigh their settled
amounts. -/
structure EntryWeight (w : Transaction → ℤ) (next : ℕ) : Prop where
  entry : ∀ {t t' : Transaction}, t.SameEntry t' → w t' = w t
  new : ∀ {t : Transaction} {n : ℕ}, t.IsNew → next ≤ n → w { t with id := n } = t.settledAmount

theorem EntryWeight.mono {w : Transaction → ℤ} {n m : ℕ} (h : EntryWeight w n) (hnm : n ≤ m) :
    EntryWeight w m :=
  ⟨h.entry, fun hnew hm => h.new hnew (hnm.trans hm)⟩

theorem entryWeight_settledAmount (n : ℕ) : EntryWeight Transaction.settledAmount n where
  entry h := by
    rw [h]
    rfl
  new _ _ := rfl

namespace Db

/-- No account drifts from the weights of its rows. -/
def Balanced (w : Transaction → ℤ) (db : Db) : Prop :=
  ∀ k, db.drift w k = 0

variable {db db' : Db} {w : Transaction → ℤ}

theorem drift_eq_of_get? {a : ℕ} {acct : Account} (h : db.accounts.get? a = some acct) :
    db.drift w a = acct.balance - acct.openingBalance -
      db.transactions.sumOver (·.accountId) w a := by
  rw [drift, h, Option.map_some, Option.getD_some]

/-- No row of a well-formed ledger is on an account that does not exist. -/
theorem drift_of_get?_eq_none (hwf : db.WellFormed) {k : ℕ} (hk : db.accounts.get? k = none) :
    db.drift w k = 0 := by
  have hrows : ∀ t ∈ db.transactions.rows, t.accountId ≠ k := by
    rintro t ht rfl
    obtain ⟨acct, hacct⟩ := (hwf.row (Table.get?_of_mem ht)).account
    rw [(Db.account?_eq_some.mp hacct).1] at hk
    exact absurd hk (by simp)
  rw [drift, hk, Option.map_none, Option.getD_none, zero_sub, neg_eq_zero]
  refine List.sum_eq_zero fun x hx => ?_
  obtain ⟨t, ht, rfl⟩ := List.mem_map.mp hx
  exact if_neg (hrows t ht)

/-- To be balanced, a well-formed ledger must be so on the accounts that exist. -/
theorem balanced_of_isSome (hwf : db.WellFormed)
    (h : ∀ k, (db.accounts.get? k).isSome → db.drift w k = 0) : db.Balanced w := by
  intro k
  cases hk : db.accounts.get? k with
  | none => exact drift_of_get?_eq_none hwf hk
  | some acct => exact h k (by simp [hk])

theorem KeepsAccounts.isSome (h : db.KeepsAccounts db') {k : ℕ}
    (hk : (db.accounts.get? k).isSome) : (db'.accounts.get? k).isSome := by
  obtain ⟨acct, hacct⟩ := Option.isSome_iff_exists.mp hk
  obtain ⟨acct', hacct', -⟩ := h k acct hacct
  simp [hacct']

/-! ### Adding -/

/-- A change of rows that keeps their entries keeps the drift of an entry weight. -/
theorem drift_mapRows_of_sameEntry {n : ℕ} (hw : EntryWeight w n) {f : Transaction → Transaction}
    {hf} (h : ∀ t ∈ db.transactions.rows, t.SameEntry (f t)) (k : ℕ) :
    drift w { db with transactions := db.transactions.mapRows f hf } k = db.drift w k := by
  unfold drift
  rw [Table.sumOver_mapRows_of_eq]
  · intro t ht
    rw [h t ht]
  · exact fun t ht => hw.entry (h t ht)

/-- Rewriting a row by one of the same entry keeps the drift of an entry weight. -/
theorem drift_putTransaction_of_sameEntry {n : ℕ} (hw : EntryWeight w n) {t t' : Transaction}
    (ht : db.transactions.get? t.id = some t) (h : t.SameEntry t') (k : ℕ) :
    (db.putTransaction t').drift w k = db.drift w k := by
  have hid : t'.id = t.id := by rw [h]
  have hacc : t'.accountId = t.accountId := by rw [h]
  rw [drift_putTransaction (hid ▸ ht), hw.entry h, hacc]
  ring

theorem Grows.next_le {P : Transaction → Prop} (h : Grows P db db') :
    db.transactions.next ≤ db'.transactions.next := by
  cases h with
  | post => exact Nat.le_succ _
  | openAccount | addCategory | setTemplates | link | retemplate | openBatch => exact le_rfl

theorem GrowsMany.next_le {P : Transaction → Prop} (h : db.GrowsMany P db') :
    db.transactions.next ≤ db'.transactions.next :=
  h.induct (I := fun d => db.transactions.next ≤ d.transactions.next)
    (fun hle hgrow => hle.trans hgrow.next_le) le_rfl

/-- One step that adds to the ledger keeps it balanced. -/
theorem Grows.balanced {P : Transaction → Prop} (h : Grows P db db') (hwf : db.WellFormed)
    (hw : EntryWeight w db.transactions.next) (hbal : db.Balanced w) : db'.Balanced w := by
  have hwf' := h.wellFormed hwf
  cases h with
  | openAccount a h =>
    refine balanced_of_isSome hwf' fun k _ => ?_
    rcases eq_or_ne k db.accounts.next with rfl | hne
    · -- The new account has no rows yet.
      have hrows : db.transactions.sumOver (·.accountId) w db.accounts.next = 0 := by
        simpa [drift, Table.get?_next] using hbal db.accounts.next
      have hbalance : (Row.withId db.accounts.next a).balance = a.balance := rfl
      have hopening : (Row.withId db.accounts.next a).openingBalance = a.openingBalance := rfl
      rw [drift_eq_of_get? (Table.get?_insert_next db.accounts a), hrows, hbalance, hopening, h]
      ring
    · have := hbal k
      rwa [drift, ← show (db.accounts.insert a).get? k = db.accounts.get? k by
        rw [Table.get?_insert, if_neg hne]] at this
  | addCategory | setTemplates => exact hbal
  | post t hrow hnew hP =>
    intro k
    cases hk : db.accounts.get? k with
    | none =>
      refine drift_of_get?_eq_none hwf' ?_
      have : ((db.post t).accounts.get? k).isSome = false := by
        rw [Db.post, addTransaction_accounts, isSome_get?_credit, hk]
        rfl
      simpa using this
    | some acct =>
      rw [drift_post (by simp [hk]) (hw.new hnew le_rfl)]
      exact hbal k
  | link e i cat h =>
    intro k
    have hi : (db.putTransaction (e.linkTo i.id cat)).transactions.get? i.id = some i :=
      (get?_putTransaction_of_ne db (t := e.linkTo i.id cat) h.id_ne.symm).trans h.income_mem
    rw [linkRows, drift_putTransaction_of_sameEntry hw hi (sameEntry_linkTo i e.id cat),
      drift_putTransaction_of_sameEntry hw h.expense_mem (sameEntry_linkTo e i.id cat)]
    exact hbal k
  | retemplate f hf h =>
    intro k
    rw [drift_mapRows_of_sameEntry hw fun t ht => ?_]
    · exact hbal k
    · rw [h t ht]
      rfl
  | openBatch ids org b hf =>
    intro k
    have hsame : ∀ t ∈ db.transactions.rows,
        t.SameEntry (t.assignBatch ids org db.importBatches.next) := fun t _ => by
      rw [assignBatch_eq]
      rfl
    exact (drift_mapRows_of_sameEntry hw hsame k).trans (hbal k)

theorem GrowsMany.balanced {P : Transaction → Prop} (h : db.GrowsMany P db')
    (hwf : db.WellFormed) (hw : EntryWeight w db.transactions.next) (hbal : db.Balanced w) :
    db'.Balanced w := by
  have hinv : db'.WellFormed ∧ EntryWeight w db'.transactions.next ∧ db'.Balanced w :=
    h.induct (I := fun d => d.WellFormed ∧ EntryWeight w d.transactions.next ∧ d.Balanced w)
      (fun hI hgrow => ⟨hgrow.wellFormed hI.1, hI.2.1.mono hgrow.next_le,
        hgrow.balanced hI.1 hI.2.1 hI.2.2⟩) ⟨hwf, hw, hbal⟩
  exact hinv.2.2

/-! ### Rewriting and removing -/

/-- Revising a row keeps a ledger balanced when both versions weigh their settled amounts, or the
same is missing from both weights. -/
theorem Balanced.revise (hbal : db.Balanced w) (hwf : db.WellFormed) {t t' : Transaction}
    (ht : db.transactions.get? t.id = some t) (ht' : db.RowOk t') (hid : t'.id = t.id)
    (hw : ∀ k, (if t.accountId = k then w t - t.settledAmount else 0) =
      if t'.accountId = k then w t' - t'.settledAmount else 0) : (db.revise t t').Balanced w := by
  refine balanced_of_isSome (hwf.revise ht') fun k hk => ?_
  have hk' : (db.accounts.get? k).isSome := by
    rwa [Db.revise, isSome_get?_credit, putTransaction_accounts, isSome_get?_credit] at hk
  rw [drift_revise hk' (hid ▸ ht), hw k, hbal k]
  ring

theorem isSome_get?_revertAll (rows : List Transaction) (db : Db) (k : ℕ) :
    ((db.revertAll rows).accounts.get? k).isSome = (db.accounts.get? k).isSome := by
  unfold revertAll
  induction rows generalizing db with
  | nil => rfl
  | cons t rows ih => rw [List.foldl_cons, ih, isSome_get?_credit]

/-- Removing rows that weigh their settled amounts keeps a ledger balanced, when no other row
weighs differently without its link. -/
theorem Balanced.remove (hbal : db.Balanced w) (hwf : db.WellFormed) {rows : List Transaction}
    (hnodup : (rows.map (·.id)).Nodup) (hmem : ∀ t ∈ rows, db.transactions.get? t.id = some t)
    {w' : Transaction → ℤ} (hrows : ∀ t ∈ rows, w t = t.settledAmount)
    (hother : ∀ i t, db.transactions.get? i = some t → i ∉ rows.map (·.id) →
      w' (unlinkFrom (rows.map (·.id)) t) = w t) : (db.remove rows).Balanced w' := by
  refine balanced_of_isSome (hwf.remove rows) fun k hk => ?_
  have hk' : (db.accounts.get? k).isSome := by
    rwa [Db.remove, deleteTransactions_accounts, isSome_get?_revertAll] at hk
  rw [drift_remove hk' hnodup hmem hrows hother]
  exact hbal k

theorem sameEntry_unlinkFrom (ids : List ℕ) (t : Transaction) : t.SameEntry (unlinkFrom ids t) := by
  rw [unlinkFrom_eq]
  rfl

/-- Removing rows that weigh their settled amounts keeps a ledger balanced for a weight of
entries. -/
theorem Balanced.remove_entry (hbal : db.Balanced w) (hwf : db.WellFormed) {n : ℕ}
    (hw : EntryWeight w n) {rows : List Transaction} (hnodup : (rows.map (·.id)).Nodup)
    (hmem : ∀ t ∈ rows, db.transactions.get? t.id = some t)
    (hrows : ∀ t ∈ rows, w t = t.settledAmount) : (db.remove rows).Balanced w :=
  hbal.remove hwf hnodup hmem hrows fun _ t _ _ => hw.entry (sameEntry_unlinkFrom _ t)

/-- Clearing the links of two rows keeps a ledger balanced for a weight of entries. -/
theorem Balanced.unlink (hbal : db.Balanced w) {n : ℕ} (hw : EntryWeight w n) {e i : Transaction}
    (he : db.transactions.get? e.id = some e) (hi : db.transactions.get? i.id = some i)
    (hne : e.id ≠ i.id) (ec ic : ℕ) :
    ((db.putTransaction (e.unlink ec)).putTransaction (i.unlink ic)).Balanced w := by
  intro k
  have hi' : (db.putTransaction (e.unlink ec)).transactions.get? i.id = some i :=
    (get?_putTransaction_of_ne db (t := e.unlink ec) hne.symm).trans hi
  rw [drift_putTransaction_of_sameEntry hw hi' (sameEntry_unlink i ic),
    drift_putTransaction_of_sameEntry hw he (sameEntry_unlink e ec)]
  exact hbal k

/-! ### Income and expense -/

/-- The sum of the amounts of the settled rows of one type on an account. -/
def settledSum (db : Db) (a : ℕ) (type : TransactionType) : ℤ :=
  ((db.transactions.rows.filter fun t =>
    t.accountId = a ∧ t.type = type ∧ t.status = .settled).map (·.amount)).sum

/-- The signed amounts of some rows of an account are their income minus their expense. -/
theorem sumOver_signed (db : Db) (p : Transaction → Prop) [DecidablePred p] (a : ℕ) :
    db.transactions.sumOver (·.accountId) (fun t => if p t then t.type.signed t.amount else 0) a =
      ((db.transactions.rows.filter fun t =>
        t.accountId = a ∧ t.type = .income ∧ p t).map (·.amount)).sum -
      ((db.transactions.rows.filter fun t =>
        t.accountId = a ∧ t.type = .expense ∧ p t).map (·.amount)).sum := by
  unfold Table.sumOver
  induction db.transactions.rows with
  | nil => simp
  | cons t l ih =>
    rw [List.map_cons, List.sum_cons, ih, List.filter_cons, List.filter_cons]
    by_cases ha : t.accountId = a <;> by_cases hp : p t <;> cases hty : t.type <;>
      simp [ha, hp, hty, TransactionType.signed] <;> ring

theorem sumOver_settledAmount (db : Db) (a : ℕ) :
    db.transactions.sumOver (·.accountId) Transaction.settledAmount a =
      db.settledSum a .income - db.settledSum a .expense :=
  sumOver_signed db (fun t => t.status = .settled) a

/-- A ledger balanced for settled amounts has on every account its opening balance, plus its settled
income, minus its settled expense. -/
theorem Balanced.balance_eq (hbal : db.Balanced Transaction.settledAmount) {a : ℕ} {acct : Account}
    (h : db.accounts.get? a = some acct) :
    acct.balance = acct.openingBalance + db.settledSum a .income - db.settledSum a .expense := by
  have := hbal a
  rw [drift_eq_of_get? h, sumOver_settledAmount] at this
  linarith

end Db

end Pfv
