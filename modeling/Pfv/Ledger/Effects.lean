import Pfv.Services.Balance

/-!
# What the writes do to the ledger

The services change the ledger through a few writes: crediting an account, storing, rewriting and
deleting transactions. This file says what each of them does to the rows a key gives, to the
columns of the accounts that never change, and to the drift of an account, the difference between
its stored balance and the one its rows account for.

## Main definitions

* `Db.KeepsAccounts db db'`: the accounts keep their organisation, currency and opening balance.
* `Db.drift w db k`: the balance of an account less its opening balance and the weights of its
  rows.
* `Db.post`, `Db.remove`: store a row and apply it; take rows off the balances and delete them.

## Main results

* `Db.drift_credit`, `Db.drift_addTransaction`, `Db.drift_putTransaction`,
  `Db.drift_deleteTransactions`: how the drift moves.
* `Db.drift_post`, `Db.drift_remove`: posting and removing keep the drift.
-/

namespace Pfv

@[simp] theorem Transaction.row_id (t : Transaction) : Row.id t = t.id := rfl

@[simp] theorem Account.row_id (a : Account) : Row.id a = a.id := rfl

@[simp] theorem Category.row_id (c : Category) : Row.id c = c.id := rfl

@[simp] theorem RecurringTransaction.row_id (r : RecurringTransaction) : Row.id r = r.id := rfl

@[simp] theorem ImportBatch.row_id (b : ImportBatch) : Row.id b = b.id := rfl

namespace Db

/-! ### Accounts -/

@[simp] theorem credit_transactions (db : Db) (a : ℕ) (x : ℤ) :
    (db.credit a x).transactions = db.transactions := rfl

@[simp] theorem credit_categories (db : Db) (a : ℕ) (x : ℤ) :
    (db.credit a x).categories = db.categories := rfl

@[simp] theorem credit_recurring (db : Db) (a : ℕ) (x : ℤ) :
    (db.credit a x).recurring = db.recurring := rfl

@[simp] theorem credit_importBatches (db : Db) (a : ℕ) (x : ℤ) :
    (db.credit a x).importBatches = db.importBatches := rfl

@[simp] theorem addTransaction_accounts (db : Db) (t : Transaction) :
    (db.addTransaction t).accounts = db.accounts := rfl

@[simp] theorem putTransaction_accounts (db : Db) (t : Transaction) :
    (db.putTransaction t).accounts = db.accounts := rfl

@[simp] theorem deleteTransactions_accounts (db : Db) (ids : List ℕ) :
    (db.deleteTransactions ids).accounts = db.accounts := rfl

theorem get?_credit (db : Db) (a : ℕ) (x : ℤ) (k : ℕ) :
    (db.credit a x).accounts.get? k =
      (db.accounts.get? k).map fun acct =>
        if k = a then { acct with balance := acct.balance + x } else acct := by
  rw [credit, Table.get?_modify]
  split_ifs with h
  · rfl
  · exact Option.map_id'.symm ▸ rfl

@[simp] theorem currencyOf_credit (db : Db) (a : ℕ) (x : ℤ) (k : ℕ) :
    (db.credit a x).currencyOf k = db.currencyOf k := by
  simp only [currencyOf, get?_credit, Option.map_map]
  congr 1
  funext acct
  simp only [Function.comp_apply]
  split_ifs <;> rfl

/-- Every account is still there, with its organisation, currency and opening balance. -/
def KeepsAccounts (db db' : Db) : Prop :=
  ∀ k acct, db.accounts.get? k = some acct → ∃ acct', db'.accounts.get? k = some acct' ∧
    acct'.orgId = acct.orgId ∧ acct'.currency = acct.currency ∧
    acct'.openingBalance = acct.openingBalance

theorem KeepsAccounts.refl (db : Db) : db.KeepsAccounts db :=
  fun _ acct h => ⟨acct, h, rfl, rfl, rfl⟩

theorem KeepsAccounts.trans {db db' db'' : Db} (h : db.KeepsAccounts db')
    (h' : db'.KeepsAccounts db'') : db.KeepsAccounts db'' := by
  intro k acct hk
  obtain ⟨acct', hk', horg, hcur, hopen⟩ := h k acct hk
  obtain ⟨acct'', hk'', horg', hcur', hopen'⟩ := h' k acct' hk'
  exact ⟨acct'', hk'', horg'.trans horg, hcur'.trans hcur, hopen'.trans hopen⟩

/-- A change that leaves the accounts alone keeps them. -/
theorem KeepsAccounts.of_eq {db db' : Db} (h : db'.accounts = db.accounts) :
    db.KeepsAccounts db' :=
  fun _ acct hk => ⟨acct, by rw [h, hk], rfl, rfl, rfl⟩

theorem keepsAccounts_credit (db : Db) (a : ℕ) (x : ℤ) : db.KeepsAccounts (db.credit a x) := by
  intro k acct hk
  rw [get?_credit, hk]
  refine ⟨_, rfl, ?_⟩
  split_ifs <;> exact ⟨rfl, rfl, rfl⟩

theorem KeepsAccounts.account? {db db' : Db} (h : db.KeepsAccounts db') {k org : ℕ}
    (hk : ∃ acct, db.account? k org = some acct) : ∃ acct, db'.account? k org = some acct := by
  obtain ⟨acct, hacct⟩ := hk
  obtain ⟨hget, horg⟩ := Db.account?_eq_some.mp hacct
  obtain ⟨acct', hget', horg', -⟩ := h k acct hget
  exact ⟨acct', Db.account?_eq_some.mpr ⟨hget', horg'.trans horg⟩⟩

theorem KeepsAccounts.currencyOf {db db' : Db} (h : db.KeepsAccounts db') {k : ℕ}
    (hk : (db.accounts.get? k).isSome) : db'.currencyOf k = db.currencyOf k := by
  obtain ⟨acct, hacct⟩ := Option.isSome_iff_exists.mp hk
  obtain ⟨acct', hacct', -, hcur, -⟩ := h k acct hacct
  simp [Db.currencyOf, hacct, hacct', hcur]

/-! ### Rows -/

@[simp] theorem putTransaction_categories (db : Db) (t : Transaction) :
    (db.putTransaction t).categories = db.categories := rfl

@[simp] theorem putTransaction_importBatches (db : Db) (t : Transaction) :
    (db.putTransaction t).importBatches = db.importBatches := rfl

@[simp] theorem addTransaction_importBatches (db : Db) (t : Transaction) :
    (db.addTransaction t).importBatches = db.importBatches := rfl

@[simp] theorem deleteTransactions_importBatches (db : Db) (ids : List ℕ) :
    (db.deleteTransactions ids).importBatches = db.importBatches := rfl

@[simp] theorem putTransaction_recurring (db : Db) (t : Transaction) :
    (db.putTransaction t).recurring = db.recurring := rfl

@[simp] theorem addTransaction_recurring (db : Db) (t : Transaction) :
    (db.addTransaction t).recurring = db.recurring := rfl

@[simp] theorem deleteTransactions_recurring (db : Db) (ids : List ℕ) :
    (db.deleteTransactions ids).recurring = db.recurring := rfl

theorem transaction?_eq_some {db : Db} {id org : ℕ} {t : Transaction} :
    db.transaction? id org = some t ↔ db.transactions.get? id = some t ∧ t.orgId = org := by
  simp [Db.transaction?, Option.filter_eq_some_iff]

/-- A row found by id is the row under its own id. -/
theorem transaction?_self {db : Db} {id org : ℕ} {t : Transaction}
    (h : db.transaction? id org = some t) : db.transactions.get? t.id = some t :=
  Table.get?_self (transaction?_eq_some.mp h).1

theorem transaction?_id {db : Db} {id org : ℕ} {t : Transaction}
    (h : db.transaction? id org = some t) : t.id = id :=
  Table.get?_id (transaction?_eq_some.mp h).1

theorem get?_addTransaction (db : Db) (t : Transaction) (i : ℕ) :
    (db.addTransaction t).transactions.get? i =
      if i = db.transactions.next then some { t with id := db.transactions.next }
      else db.transactions.get? i :=
  Table.get?_insert _ _ _

theorem get?_putTransaction (db : Db) (t : Transaction) (i : ℕ) :
    (db.putTransaction t).transactions.get? i =
      if i = t.id then (db.transactions.get? i).map fun _ => t else db.transactions.get? i :=
  Table.get?_put _ _ _

theorem get?_putTransaction_self {db : Db} {t t₀ : Transaction}
    (h : db.transactions.get? t.id = some t₀) :
    (db.putTransaction t).transactions.get? t.id = some t :=
  Table.get?_put_self h

theorem get?_putTransaction_of_ne (db : Db) {t : Transaction} {i : ℕ} (h : i ≠ t.id) :
    (db.putTransaction t).transactions.get? i = db.transactions.get? i :=
  Table.get?_put_of_ne _ h

@[simp] theorem next_putTransaction (db : Db) (t : Transaction) :
    (db.putTransaction t).transactions.next = db.transactions.next := rfl

@[simp] theorem next_addTransaction (db : Db) (t : Transaction) :
    (db.addTransaction t).transactions.next = db.transactions.next + 1 := rfl

@[simp] theorem next_deleteTransactions (db : Db) (ids : List ℕ) :
    (db.deleteTransactions ids).transactions.next = db.transactions.next := rfl

theorem get?_deleteTransactions (db : Db) (ids : List ℕ) (i : ℕ) :
    (db.deleteTransactions ids).transactions.get? i =
      if i ∈ ids then none else (db.transactions.get? i).map (unlinkFrom ids) := by
  simp only [deleteTransactions, Table.get?_mapRows, Table.get?_filter]
  cases h : db.transactions.get? i with
  | none => simp
  | some t =>
    have hid : t.id = i := Table.get?_id h
    by_cases hi : i ∈ ids <;> simp [Option.filter, hid, hi]

/-- The rows that survive a deletion. -/
theorem get?_deleteTransactions_eq_some {db : Db} {ids : List ℕ} {i : ℕ} {t' : Transaction} :
    (db.deleteTransactions ids).transactions.get? i = some t' ↔
      i ∉ ids ∧ ∃ t, db.transactions.get? i = some t ∧ t' = unlinkFrom ids t := by
  rw [get?_deleteTransactions]
  split_ifs with h
  · simp [h]
  · simp [h, eq_comm]

/-- What clearing dangling links leaves of a row. -/
theorem unlinkFrom_eq (ids : List ℕ) (t : Transaction) :
    unlinkFrom ids t =
      { t with linkedTransactionId := (unlinkFrom ids t).linkedTransactionId } := by
  unfold unlinkFrom
  split_ifs <;> rfl

theorem unlinkFrom_link_eq_some {ids : List ℕ} {t : Transaction} {l : ℕ} :
    (unlinkFrom ids t).linkedTransactionId = some l ↔
      t.linkedTransactionId = some l ∧ l ∉ ids := by
  unfold unlinkFrom
  split_ifs with h
  · simp only [Option.any_eq_true, decide_eq_true_eq] at h
    obtain ⟨m, hm, hids⟩ := h
    simp only [false_iff, not_and, not_not]
    rintro hl
    rw [hm, Option.some_inj] at hl
    exact hl ▸ hids
  · simp only [Option.any_eq_true, decide_eq_true_eq, not_exists, not_and] at h
    exact ⟨fun hl => ⟨hl, h l hl⟩, And.left⟩

/-- The rows locked by id. -/
theorem mem_lockRows {db : Db} {org : ℕ} {ids : List ℕ} {t : Transaction} :
    t ∈ db.lockRows org ids ↔
      db.transactions.get? t.id = some t ∧ t.id ∈ ids ∧ t.orgId = org := by
  simp [lockRows, Table.mem_rows_iff]

/-- The row with a given id among the locked rows. -/
theorem rowsGet_lockRows {db : Db} {org : ℕ} {ids : List ℕ} {i : ℕ} {t : Transaction} :
    rowsGet (db.lockRows org ids) i = some t ↔ db.transaction? i org = some t ∧ i ∈ ids := by
  rw [transaction?_eq_some]
  constructor
  · intro h
    have hid : t.id = i := by simpa using List.find?_some h
    obtain ⟨hget, hids, horg⟩ := mem_lockRows.mp (List.mem_of_find?_eq_some h)
    exact ⟨⟨hid ▸ hget, horg⟩, hid ▸ hids⟩
  · rintro ⟨⟨hget, horg⟩, hids⟩
    have hid : t.id = i := Table.get?_id hget
    have hmem : t ∈ db.lockRows org ids := mem_lockRows.mpr ⟨hid.symm ▸ hget, hid.symm ▸ hids, horg⟩
    cases hfind : rowsGet (db.lockRows org ids) i with
    | none => exact absurd hid (by simpa using List.find?_eq_none.mp hfind t hmem)
    | some u =>
      have huid : u.id = i := by simpa using List.find?_some hfind
      have hu := (mem_lockRows.mp (List.mem_of_find?_eq_some hfind)).1
      rw [huid, hget, Option.some_inj] at hu
      rw [hu]

/-! ### The drift of an account -/

/-- The balance of an account less its opening balance and the weights of the rows on it. -/
def drift (w : Transaction → ℤ) (db : Db) (k : ℕ) : ℤ :=
  ((db.accounts.get? k).map fun a => a.balance - a.openingBalance).getD 0 -
    db.transactions.sumOver (·.accountId) w k

theorem isSome_get?_credit (db : Db) (a : ℕ) (x : ℤ) (k : ℕ) :
    ((db.credit a x).accounts.get? k).isSome = (db.accounts.get? k).isSome := by
  rw [get?_credit, Option.isSome_map]

theorem drift_credit {db : Db} {k : ℕ} (hk : (db.accounts.get? k).isSome)
    (w : Transaction → ℤ) (a : ℕ) (x : ℤ) :
    (db.credit a x).drift w k = db.drift w k + if a = k then x else 0 := by
  obtain ⟨acct, hacct⟩ := Option.isSome_iff_exists.mp hk
  simp only [drift, get?_credit, hacct, Option.map_some, Option.getD_some, credit_transactions,
    eq_comm (a := k)]
  split_ifs <;> ring

theorem drift_addTransaction (w : Transaction → ℤ) (db : Db) (t : Transaction) (k : ℕ) :
    (db.addTransaction t).drift w k =
      db.drift w k - if t.accountId = k then w { t with id := db.transactions.next } else 0 := by
  simp only [drift, addTransaction, Table.sumOver_insert]
  exact sub_add_eq_sub_sub _ _ _

/-- Writing a row back under weights that agree on the other rows. -/
theorem drift_putTransaction_of_eq {db : Db} {t t₀ : Transaction}
    (h : db.transactions.get? t.id = some t₀) {w w' : Transaction → ℤ}
    (hw : ∀ u, u.id ≠ t.id → w' u = w u) (k : ℕ) :
    (db.putTransaction t).drift w' k =
      db.drift w k + (if t₀.accountId = k then w t₀ else 0) -
        if t.accountId = k then w' t else 0 := by
  simp only [drift, putTransaction]
  rw [Table.sumOver_put_of_eq (b := t) h (·.accountId) fun u _ hu => hw u hu]
  ring

theorem drift_putTransaction {db : Db} {t t₀ : Transaction}
    (h : db.transactions.get? t.id = some t₀) (w : Transaction → ℤ) (k : ℕ) :
    (db.putTransaction t).drift w k =
      db.drift w k + (if t₀.accountId = k then w t₀ else 0) -
        if t.accountId = k then w t else 0 :=
  drift_putTransaction_of_eq h (fun _ _ => rfl) k

/-- Two weights that agree on the rows of an account give it the same drift. -/
theorem drift_congr {db : Db} {w w' : Transaction → ℤ} {k : ℕ}
    (h : ∀ i t, db.transactions.get? i = some t → t.accountId = k → w t = w' t) :
    db.drift w k = db.drift w' k := by
  unfold drift
  rw [Table.sumOver_congr fun t ht => ?_]
  split_ifs with hk
  · exact h _ t (Table.get?_of_mem ht) hk
  · rfl

/-- Deleting rows of the ledger gives the drift back what they weighed. -/
theorem drift_deleteTransactions {db : Db} {rows : List Transaction}
    (hnodup : (rows.map (·.id)).Nodup)
    (hmem : ∀ t ∈ rows, db.transactions.get? t.id = some t) (w : Transaction → ℤ) (k : ℕ) :
    (db.deleteTransactions (rows.map (·.id))).drift w k =
      db.drift (w ∘ unlinkFrom (rows.map (·.id))) k +
        (rows.map fun t =>
          if t.accountId = k then w (unlinkFrom (rows.map (·.id)) t) else 0).sum := by
  have hacc : ∀ t : Transaction, (unlinkFrom (rows.map (·.id)) t).accountId = t.accountId :=
    fun t => by rw [unlinkFrom_eq]
  have hperm : (db.transactions.rows.filter fun t => t.id ∈ rows.map (·.id)).Perm rows :=
    Table.filter_perm hnodup hmem
  simp only [deleteTransactions, drift, Table.sumOver_mapRows, Table.sumOver_filter,
    Function.comp_def, hacc]
  have hsum := (hperm.map fun t : Transaction =>
    if t.accountId = k then w (unlinkFrom (rows.map (·.id)) t) else 0).sum_eq
  simp only [decide_not, Bool.not_not, hsum]
  ring

/-! ### Posting and removing rows -/

/-- Store a row and apply it to the balance of its account. -/
def post (db : Db) (t : Transaction) : Db :=
  (db.credit t.accountId t.settledAmount).addTransaction t

/-- Take rows off the balances of their accounts. -/
def revertAll (db : Db) (rows : List Transaction) : Db :=
  rows.foldl (fun db t => db.credit t.accountId (-t.settledAmount)) db

/-- Take rows off the balances of their accounts and delete them. -/
def remove (db : Db) (rows : List Transaction) : Db :=
  (db.revertAll rows).deleteTransactions (rows.map (·.id))

@[simp] theorem post_transactions (db : Db) (t : Transaction) :
    (db.post t).transactions = db.transactions.insert t := rfl

@[simp] theorem currencyOf_addTransaction (db : Db) (t : Transaction) (k : ℕ) :
    (db.addTransaction t).currencyOf k = db.currencyOf k := rfl

@[simp] theorem currencyOf_post (db : Db) (t : Transaction) (k : ℕ) :
    (db.post t).currencyOf k = db.currencyOf k :=
  currencyOf_credit db _ _ k

theorem get?_post (db : Db) (t : Transaction) (i : ℕ) :
    (db.post t).transactions.get? i =
      if i = db.transactions.next then some { t with id := db.transactions.next }
      else db.transactions.get? i :=
  get?_addTransaction _ _ _

theorem get?_post_next (db : Db) (t : Transaction) :
    (db.post t).transactions.get? db.transactions.next =
      some { t with id := db.transactions.next } :=
  Table.get?_insert_next _ _

theorem keepsAccounts_post (db : Db) (t : Transaction) : db.KeepsAccounts (db.post t) :=
  (keepsAccounts_credit db _ _).trans (.of_eq rfl)

/-- Taking rows off the balances touches the accounts only. -/
theorem revertAll_eq (rows : List Transaction) (db : Db) :
    db.revertAll rows = { db with accounts := (db.revertAll rows).accounts } := by
  unfold revertAll
  induction rows generalizing db with
  | nil => rfl
  | cons t rows ih =>
    rw [List.foldl_cons, ih]
    rfl

@[simp] theorem revertAll_transactions (db : Db) (rows : List Transaction) :
    (db.revertAll rows).transactions = db.transactions := by
  rw [revertAll_eq]

theorem keepsAccounts_revertAll (rows : List Transaction) (db : Db) :
    db.KeepsAccounts (db.revertAll rows) := by
  unfold revertAll
  induction rows generalizing db with
  | nil => exact .refl db
  | cons t rows ih => exact (keepsAccounts_credit db _ _).trans (ih _)

theorem keepsAccounts_remove (db : Db) (rows : List Transaction) :
    db.KeepsAccounts (db.remove rows) :=
  (keepsAccounts_revertAll rows db).trans (.of_eq rfl)

theorem get?_remove_eq_some {db : Db} {rows : List Transaction} {i : ℕ} {t' : Transaction} :
    (db.remove rows).transactions.get? i = some t' ↔
      i ∉ rows.map (·.id) ∧
        ∃ t, db.transactions.get? i = some t ∧ t' = unlinkFrom (rows.map (·.id)) t := by
  rw [remove, get?_deleteTransactions_eq_some, revertAll_transactions]

theorem drift_revertAll (rows : List Transaction) {db : Db} {k : ℕ}
    (hk : (db.accounts.get? k).isSome) (w : Transaction → ℤ) :
    (db.revertAll rows).drift w k =
      db.drift w k - (rows.map fun t => if t.accountId = k then t.settledAmount else 0).sum := by
  unfold revertAll
  induction rows generalizing db with
  | nil => simp
  | cons t rows ih =>
    have hk' : ((db.credit t.accountId (-t.settledAmount)).accounts.get? k).isSome := by
      rwa [isSome_get?_credit]
    rw [List.foldl_cons, ih hk', drift_credit hk, List.map_cons, List.sum_cons]
    split_ifs <;> ring

/-- Posting a row keeps every drift when the row weighs its settled amount. -/
theorem drift_post {db : Db} {k : ℕ} (hk : (db.accounts.get? k).isSome) {w : Transaction → ℤ}
    {t : Transaction} (hw : w { t with id := db.transactions.next } = t.settledAmount) :
    (db.post t).drift w k = db.drift w k := by
  rw [post, drift_addTransaction, drift_credit hk]
  simp only [credit_transactions, hw]
  ring

/-- Removing rows keeps every drift when the removed rows weigh their settled amounts and no other
row weighs differently without its link. -/
theorem drift_remove {db : Db} {rows : List Transaction} {k : ℕ}
    (hk : (db.accounts.get? k).isSome) (hnodup : (rows.map (·.id)).Nodup)
    (hmem : ∀ t ∈ rows, db.transactions.get? t.id = some t) {w w' : Transaction → ℤ}
    (hrows : ∀ t ∈ rows, w t = t.settledAmount)
    (hother : ∀ i t, db.transactions.get? i = some t → i ∉ rows.map (·.id) →
      w' (unlinkFrom (rows.map (·.id)) t) = w t) :
    (db.remove rows).drift w' k = db.drift w k := by
  -- Weighing the surviving rows by `w'` and the removed ones by `w`.
  let v : Transaction → ℤ := fun t =>
    if t.id ∈ rows.map (·.id) then t.settledAmount else w' t
  have hid : ∀ t : Transaction, (unlinkFrom (rows.map (·.id)) t).id = t.id :=
    fun t => by rw [unlinkFrom_eq]
  have hsettled : ∀ t : Transaction,
      (unlinkFrom (rows.map (·.id)) t).settledAmount = t.settledAmount :=
    fun t => by rw [unlinkFrom_eq]; rfl
  have hv : ∀ i t, db.transactions.get? i = some t →
      v (unlinkFrom (rows.map (·.id)) t) = w t := by
    intro i t ht
    have hti : t.id = i := Table.get?_id ht
    simp only [v, hid]
    split_ifs with hmemids
    · obtain ⟨u, hu, hut⟩ := List.mem_map.mp hmemids
      have hut' : u = t := Table.get?_inj (hmem u hu) (by simpa [hti] using ht) hut
      rw [hsettled, ← hut', hrows u hu]
    · exact hother i t ht (hti ▸ hmemids)
  calc (db.remove rows).drift w' k
      = (db.remove rows).drift v k := by
        refine drift_congr fun i t ht _ => ?_
        obtain ⟨hi, u, hu, rfl⟩ := get?_remove_eq_some.mp ht
        have hui : u.id = i := Table.get?_id hu
        simp only [v, hid, hui, if_neg hi]
    _ = (db.revertAll rows).drift (v ∘ unlinkFrom (rows.map (·.id))) k +
          (rows.map fun t =>
            if t.accountId = k then v (unlinkFrom (rows.map (·.id)) t) else 0).sum :=
        drift_deleteTransactions hnodup (by simpa using hmem) v k
    _ = (db.revertAll rows).drift w k +
          (rows.map fun t => if t.accountId = k then t.settledAmount else 0).sum := by
        congr 1
        · exact drift_congr fun i t ht _ => hv i t (by simpa using ht)
        · refine congrArg List.sum (List.map_congr_left fun t ht => ?_)
          rw [hv t.id t (hmem t ht), hrows t ht]
    _ = db.drift w k := by
        rw [drift_revertAll rows hk]
        ring

end Db

end Pfv
