import Pfv.Services.AccountDeletion

/-!
# Deleting an account

Three tables refer to accounts, and a deletion looks at the transactions only. An account without
balance and transactions may still have recurring templates, or import batches whose rows are gone:
the database refuses the delete then, and the request fails with an error instead of a conflict.
Nothing else stands in the way, since no row of another organisation refers to an account.

## Main definitions

* `GuardsAccept`: the account passes the checks of the route.
* `DeletesAccount`: an account that passes is deleted and nothing else changes, and one that fails
  is a conflict.

## Main results

* `deletesAccount_iff`: the accounts for which a reachable database does so.
-/

namespace Pfv

/-- An error that is answered with status 409. -/
def ServiceError.IsConflict : ServiceError → Prop
  | .conflict _ => True
  | .httpException status _ => status = 409
  | _ => False

/-! ### What a deletion should do -/

/-- The account passes the checks of the route: it has no balance and no transactions. -/
def GuardsAccept (db : Tenancy) (account : Account) : Prop :=
  account.balance = 0 ∧ ∀ t ∈ (db .transactions).rows,
    ¬((t : Transaction).accountId = account.id ∧ t.orgId = account.orgId)

instance (db : Tenancy) (account : Account) : Decidable (GuardsAccept db account) :=
  inferInstanceAs (Decidable (_ ∧ _))

/-- The account is deleted when it passes the checks, with every foreign key satisfied and every
other row as it was, and otherwise the request is a conflict and changes nothing. -/
structure DeletesAccount (db : Tenancy) (account : Account) : Prop where
  deletes : GuardsAccept db account → ∃ db',
    deleteAccount db account.orgId account.id = .ok db' ∧ Schema.Valid db' ∧
    db' .accounts = (db .accounts).filter (fun a : Account => a.id ≠ account.id) ∧
    ∀ t, t ≠ .accounts → db' t = db t
  refuses : ¬GuardsAccept db account → ∃ e,
    deleteAccount db account.orgId account.id = .error e ∧ e.IsConflict ∧
    serve AccountRequest.step db (.deleteAccount account.orgId account.id) = db

/-- No recurring template and no import batch refers to the account. -/
def OnlyTransactionsRefer (db : Tenancy) (account : Account) : Prop :=
  (∀ r ∈ (db .recurringTransactions).rows, (r : RecurringTransaction).accountId ≠ account.id) ∧
    ∀ b ∈ (db .importBatches).rows, (b : ImportBatch).accountId ≠ account.id

instance (db : Tenancy) (account : Account) : Decidable (OnlyTransactionsRefer db account) :=
  inferInstanceAs (Decidable (_ ∧ _))

/-! ### The delete statement -/

section Statement

variable {db : Tenancy} {account : Account}

/-- The rows a delete of the account selects. -/
def accountRow (account : Account) : tenancy.Selection :=
  Schema.onTable .accounts fun a : Account => a.id = account.id

theorem eq_accounts_of_accountRow {t : TableName} {r : tenancy.RowOf t}
    (h : accountRow account t r = true) : t = .accounts := by
  by_contra hne
  rw [accountRow, Schema.onTable_of_ne (Ne.symm hne)] at h
  exact absurd h (by decide)

/-- The rows that go are accounts. -/
theorem gone_accountRow {t : TableName} {r : tenancy.RowOf t}
    (h : Schema.gone db (accountRow account) t r = true) : t = .accounts :=
  @Schema.gone_doomed TableName Column _ tenancy _ db (accountRow account) (· = .accounts)
    (by decide) (fun _ _ => eq_accounts_of_accountRow) t r h

/-- The keys that lead to accounts. -/
theorem keys_to_accounts : ∀ fk ∈ foreignKeys, fk.parent = .accounts →
    fk ∈ ([⟨.importBatches, .accountId, .accounts, .restrict⟩,
      ⟨.recurringTransactions, .accountId, .accounts, .restrict⟩,
      ⟨.transactions, .accountId, .accounts, .restrict⟩] : List (ForeignKey TableName Column)) := by
  decide

/-- A row refers to the account when the id in its column is that of the account. -/
theorem points_accountRow (hacc : account ∈ (db .accounts).rows) {fk : ForeignKey TableName Column}
    (hparent : fk.parent = .accounts) {r : tenancy.RowOf fk.child} :
    Schema.points db (Schema.gone db (accountRow account)) fk fk.child r = true ↔
      fk.child.ref r fk.column = some account.id := by
  obtain ⟨child, column, parent, onDelete⟩ := fk
  obtain rfl : parent = .accounts := hparent
  have hgone : ∀ a : Account, Schema.gone db (accountRow account) .accounts a =
      decide (a.id = account.id) := fun a => by
    rw [Schema.gone_of_no_cascade (by decide), accountRow, Schema.onTable_self]
  simp only [Schema.points_iff, hgone, decide_eq_true_eq]
  constructor
  · rintro ⟨i, hi, a, ha, hsame⟩
    rw [← hsame, ← Account.row_id, Table.get?_id ha]
    exact hi
  · intro hrefers
    exact ⟨account.id, hrefers, account, Table.get?_of_mem hacc, rfl⟩

/-- The database refuses the delete just when some row refers to the account. -/
theorem restricted_accountRow_iff (hacc : account ∈ (db .accounts).rows) :
    Schema.Restricted db (accountRow account) ↔
      ¬((∀ t ∈ (db .transactions).rows, (t : Transaction).accountId ≠ account.id) ∧
        OnlyTransactionsRefer db account) := by
  constructor
  · rintro ⟨fk, hfk, -, r, hr, hpoints⟩ ⟨htransactions, hrecurring, hbatches⟩
    obtain ⟨-, -, a, -, hgone⟩ := Schema.points_iff.mp hpoints
    have hparent := gone_accountRow hgone
    have hrefers := (points_accountRow hacc hparent).mp hpoints
    have hkey := keys_to_accounts fk hfk hparent
    simp only [List.mem_cons, List.not_mem_nil, or_false] at hkey
    rcases hkey with rfl | rfl | rfl
    · exact hbatches r hr (Option.some_inj.mp hrefers)
    · exact hrecurring r hr (Option.some_inj.mp hrefers)
    · exact htransactions r hr (Option.some_inj.mp hrefers)
  · intro hrefers
    by_contra hfree
    have hnone : ∀ fk ∈ foreignKeys, fk.onDelete = .restrict → fk.parent = .accounts →
        ∀ r ∈ (db fk.child).rows, fk.child.ref r fk.column ≠ some account.id :=
      fun fk hfk hrestrict hparent r hr h =>
        hfree ⟨fk, hfk, hrestrict, r, hr, (points_accountRow hacc hparent).mpr h⟩
    refine hrefers ⟨fun t ht h => ?_, fun r hr h => ?_, fun b hb h => ?_⟩
    · exact hnone ⟨.transactions, .accountId, .accounts, .restrict⟩ (by decide) rfl rfl t ht
        (congrArg some h)
    · exact hnone ⟨.recurringTransactions, .accountId, .accounts, .restrict⟩
        (by decide) rfl rfl r hr
        (congrArg some h)
    · exact hnone ⟨.importBatches, .accountId, .accounts, .restrict⟩ (by decide) rfl rfl b hb
        (congrArg some h)

/-- The delete leaves the other tables as they are. -/
theorem deleted_accountRow_other {t : TableName} (ht : t ≠ .accounts) :
    Schema.deleted db (accountRow account) t = db t := by
  have hkeys : ∀ fk ∈ foreignKeys, fk.onDelete ≠ .restrict → fk.parent ≠ .accounts := by decide
  refine @Schema.deleted_same TableName Column _ tenancy _ db (accountRow account) (· = .accounts)
    (fun fk hfk hcascade hparent => ?_) (fun _ _ => eq_accounts_of_accountRow) t ht
    fun fk hfk _ hset => ?_
  · exact absurd hparent (hkeys fk hfk (by rw [hcascade]; decide))
  · exact hkeys fk hfk (by rw [hset]; decide)

/-- The delete removes the account and leaves the others as they are. -/
theorem deleted_accountRow_accounts :
    Schema.deleted db (accountRow account) .accounts =
      (db .accounts).filter fun a : Account => a.id ≠ account.id := by
  rw [Schema.deleted_eq_filter (by decide), accountRow]
  refine congrArg (db .accounts).filter (funext fun a => ?_)
  rw [Schema.onTable_self, decide_not]

end Statement

/-! ### The request -/

section Request

variable {db db' : Tenancy} {account : Account}

theorem account?_self (hacc : account ∈ (db .accounts).rows) :
    db.account? account.id account.orgId = some account :=
  Option.filter_eq_some_iff.mpr ⟨Table.get?_of_mem hacc, decide_eq_true rfl⟩

theorem guardsAccept_iff : GuardsAccept db account ↔ account.balance = 0 ∧
    ((db .transactions).rows.filter fun t : Transaction =>
      t.accountId = account.id ∧ t.orgId = account.orgId).length = 0 := by
  rw [GuardsAccept, List.length_eq_zero_iff, List.filter_eq_nil_iff]
  simp only [decide_eq_true_eq]

/-- The checks of an account that is there, and the statement. -/
theorem deleteAccount_eq (hacc : account ∈ (db .accounts).rows) :
    deleteAccount db account.orgId account.id = (do
      raiseIf (account.balance ≠ 0) (.httpException 409 ("Cannot delete account with balance " ++
        formatCents account.balance ++ ". Transfer the balance first."))
      assertNoDependents ((db .transactions).rows.filter fun t : Transaction =>
        t.accountId = account.id ∧ t.orgId = account.orgId).length "transaction" "account"
      db.deleteWhere .accounts fun a => a.id = account.id) := by
  rw [deleteAccount, account?_self hacc]
  rfl

/-- An account that passes the checks is deleted unless the database refuses the statement. -/
theorem deleteAccount_of_accept (hacc : account ∈ (db .accounts).rows)
    (haccept : GuardsAccept db account) :
    deleteAccount db account.orgId account.id = db.deleteWhere .accounts fun a =>
      a.id = account.id := by
  obtain ⟨hbalance, hcount⟩ := guardsAccept_iff.mp haccept
  rw [deleteAccount_eq hacc, bind_of_ok (raiseIf_of_not (not_not.mpr hbalance)), assertNoDependents,
    bind_of_ok (raiseIf_of_not (by omega))]

/-- An account that does not pass is a conflict. -/
theorem deleteAccount_of_refuse (hacc : account ∈ (db .accounts).rows)
    (hrefuse : ¬GuardsAccept db account) :
    ∃ e, deleteAccount db account.orgId account.id = .error e ∧ e.IsConflict := by
  rw [guardsAccept_iff] at hrefuse
  rw [deleteAccount_eq hacc]
  by_cases hbalance : account.balance = 0
  · have hcount := Nat.pos_of_ne_zero fun h => hrefuse ⟨hbalance, h⟩
    rw [bind_of_ok (raiseIf_of_not (not_not.mpr hbalance)), assertNoDependents,
      bind_of_error (raiseIf_of hcount)]
    exact ⟨_, rfl, trivial⟩
  · rw [bind_of_error (raiseIf_of hbalance)]
    exact ⟨_, rfl, rfl⟩

/-- An accepted deletion of an account. -/
theorem deleteAccount_ok {org id : ℕ} (h : deleteAccount db org id = .ok db') :
    ∃ account : Account, account ∈ (db .accounts).rows ∧
      ¬Schema.Restricted db (accountRow account) ∧
      Schema.deleted db (accountRow account) = db' := by
  unfold deleteAccount assertNoDependents at h
  simp only [↓unit_bind_eq_ok, bind_eq_ok, orRaise_eq_ok] at h
  obtain ⟨account, hacc, -, -, hdelete⟩ := h
  obtain ⟨hget, -⟩ := Option.filter_eq_some_iff.mp hacc
  exact ⟨account, Table.get?_mem hget, Schema.delete_eq_ok.mp hdelete⟩

end Request

/-! ### Runs -/

section Runs

variable {db db' : Tenancy}

/-- Replacing the ledger gives that ledger, with the account types of the database. -/
theorem wellFormed_withLedger {ledger : Db} (h : ledger.WellFormed) :
    (db.withLedger ledger).ledger.WellFormed :=
  ⟨fun ht => ⟨(h.row ht).account, (h.row ht).amount, (h.row ht).type, (h.row ht).batch⟩,
    fun r hr => ⟨(h.template r hr).account, (h.template r hr).amount⟩⟩

/-- A request keeps the ledger well formed. -/
theorem AccountRequest.step_wellFormed {r : AccountRequest} (hwf : db.ledger.WellFormed)
    (h : r.step db = .ok db') : db'.ledger.WellFormed := by
  cases r with
  | book r =>
    obtain ⟨ledger, hledger, rfl⟩ := map_eq_ok.mp h
    exact wellFormed_withLedger (BookRequest.step_wellFormed hwf hledger)
  | deleteAccount org id =>
    obtain ⟨account, hacc, hfree, rfl⟩ := deleteAccount_ok h
    rw [restricted_accountRow_iff hacc, not_not] at hfree
    obtain ⟨htransactions, hrecurring, -⟩ := hfree
    -- the accounts that rows and templates refer to are still there
    have hstays : ∀ {k o : ℕ}, k ≠ account.id → (∃ a, db.ledger.account? k o = some a) →
        ∃ a, (Tenancy.ledger (Schema.deleted db (accountRow account))).account? k o = some a := by
      rintro k o hk ⟨a, ha⟩
      obtain ⟨ha, horg⟩ := Db.account?_eq_some.mp ha
      refine ⟨a, Db.account?_eq_some.mpr ⟨?_, horg⟩⟩
      change Table.get? (Schema.deleted db (accountRow account) .accounts) k = some a
      rw [deleted_accountRow_accounts, Table.get?_filter]
      refine Option.filter_eq_some_iff.mpr ⟨ha, decide_eq_true ?_⟩
      rw [← Account.row_id a, Table.get?_id ha]
      exact hk
    have hother {t : TableName} (ht : t ≠ .accounts) := @deleted_accountRow_other db account t ht
    refine ⟨fun {i t} ht => ?_, fun r hr => ?_⟩
    · change Table.get? (Schema.deleted db (accountRow account) .transactions) i = some t at ht
      rw [hother (by decide)] at ht
      have hrow := hwf.row ht
      refine ⟨hstays (htransactions t (Table.get?_mem ht)) hrow.account, hrow.amount, hrow.type, ?_⟩
      change ∀ b, _ → b < Table.next (Schema.deleted db (accountRow account) .importBatches) ∧ _
      rw [hother (by decide)]
      exact hrow.batch
    · change r ∈ Table.rows (Schema.deleted db (accountRow account) .recurringTransactions) at hr
      rw [hother (by decide)] at hr
      have hrow := hwf.template r hr
      exact ⟨hstays (hrecurring r hr) hrow.account, hrow.amount⟩

theorem Tenancy.Reached.wellFormed (h : db.Reached) : db.ledger.WellFormed := by
  obtain ⟨db₀, rs, hseeded, rfl⟩ := h
  exact serveAll_invariant (I := fun db : Tenancy => db.ledger.WellFormed)
    (fun _ _ _ hwf _ hstep => AccountRequest.step_wellFormed hwf hstep) rs hseeded.wellFormed
    (admits_of_forall (fun _ _ hr => hr) rs db₀ fun _ _ => trivial)

/-- In a database that was reached, only rows of its organisation refer to an account. -/
theorem Tenancy.Reached.orgId_eq (h : db.Reached) {account : Account}
    (hacc : account ∈ (db .accounts).rows) {t : Transaction} (ht : t ∈ (db .transactions).rows)
    (hrefers : t.accountId = account.id) : t.orgId = account.orgId := by
  obtain ⟨acct, hacct⟩ := (h.wellFormed.row (Table.get?_of_mem ht)).account
  obtain ⟨hget, horg⟩ := Db.account?_eq_some.mp hacct
  rw [hrefers] at hget
  have hsame : account = acct := Option.some_inj.mp ((Table.get?_of_mem hacc).symm.trans hget)
  rw [hsame, horg]

end Runs

/-- In every database that was reached and satisfies its foreign keys, an account is deleted as it
should be just when it does not pass the checks or no recurring template and no import batch refers
to it. -/
theorem deletesAccount_iff {db : Tenancy} (hreach : db.Reached) (hvalid : Schema.Valid db)
    {account : Account} (hacc : account ∈ (db .accounts).rows) :
    DeletesAccount db account ↔ (GuardsAccept db account → OnlyTransactionsRefer db account) := by
  constructor
  · intro h haccept
    obtain ⟨db', hdelete, -⟩ := h.deletes haccept
    rw [deleteAccount_of_accept hacc haccept] at hdelete
    have hfree := (Schema.delete_eq_ok.mp hdelete).1
    rw [← accountRow, restricted_accountRow_iff hacc, not_not] at hfree
    exact hfree.2
  · intro honly
    refine ⟨fun haccept => ?_, fun hrefuse => ?_⟩
    · have hfree : ¬Schema.Restricted db (accountRow account) := by
        rw [restricted_accountRow_iff hacc, not_not]
        exact ⟨fun t ht hrefers => haccept.2 t ht ⟨hrefers, hreach.orgId_eq hacc ht hrefers⟩,
          honly haccept⟩
      refine ⟨Schema.deleted db (accountRow account), ?_, hvalid.deleted hfree,
        deleted_accountRow_accounts, fun t => deleted_accountRow_other⟩
      rw [deleteAccount_of_accept hacc haccept]
      exact Schema.delete_eq_ok.mpr ⟨hfree, rfl⟩
    · obtain ⟨e, he, hconflict⟩ := deleteAccount_of_refuse hacc hrefuse
      exact ⟨e, he, hconflict, serve_of_error he⟩

/-! ### What is left behind -/

/-- An organisation before its first account. -/
def sampleOffice : Tenancy
  | .organizations => Table.empty.insert { name := "Home" }
  | .users => Table.empty.insert { orgId := 1, username := "ana", email := "ana@example.com" }
  | .accountTypes => Table.empty.insert { id := 0, orgId := 1, slug := none, name := "Cash" }
  | .categories => Table.empty.insert { orgId := 1, name := "General" }
  | _ => .empty

/-- A recurring template on a new account. -/
def sampleStanding : List AccountRequest :=
  [.book (.ledger (sampleAccount "Savings")),
    .book (.ledger (.createRecurring 1
      { accountId := 1, categoryId := 1, description := "Rent", amount := 1000, type := .expense
        frequency := .monthly, nextDueDate := sampleDate, amount_nonneg := by decide }))]

/-- An import to a new account whose row is deleted. -/
def sampleUndone : List AccountRequest :=
  [.book (.ledger (sampleAccount "Savings")), .book (.ledger (sampleImport 1 [.income])),
    .book (.ledger (.delete 1 1))]

def sampleKept (rs : List AccountRequest) : Tenancy := serveAll AccountRequest.step sampleOffice rs

theorem sampleKept_reached (rs : List AccountRequest) : (sampleKept rs).Reached :=
  ⟨sampleOffice, rs, ⟨rfl, rfl, rfl, rfl⟩, rfl⟩

/-- The account of these runs. -/
def sampleSavings : Account where
  id := 1
  orgId := 1
  accountTypeId := 1
  name := "Savings"
  openingBalanceDate := sampleDate

/-- Without the template and the import, the account is deleted. -/
theorem sampleSavings_deleted :
    DeletesAccount (sampleKept [.book (.ledger (sampleAccount "Savings"))]) sampleSavings :=
  (deletesAccount_iff (sampleKept_reached _) (by decide +kernel) (by decide +kernel)).mpr
    (by decide +kernel)

theorem not_deletesAccount {db : Tenancy} {account : Account} (haccept : GuardsAccept db account)
    (hfail : (deleteAccount db account.orgId account.id).isOk = false) :
    ¬DeletesAccount db account := by
  intro h
  obtain ⟨db', hdelete, -⟩ := h.deletes haccept
  rw [hdelete] at hfail
  exact absurd hfail (by simp [Except.isOk, Except.toBool])

/-- A template, or an import batch without rows, keeps an account that passes the checks. -/
theorem sampleSavings_not_deleted :
    (Schema.Valid (sampleKept sampleStanding) ∧ (sampleKept sampleStanding).Reached ∧
      sampleSavings ∈ (sampleKept sampleStanding .accounts).rows ∧
      ¬DeletesAccount (sampleKept sampleStanding) sampleSavings) ∧
    Schema.Valid (sampleKept sampleUndone) ∧ (sampleKept sampleUndone).Reached ∧
      sampleSavings ∈ (sampleKept sampleUndone .accounts).rows ∧
      ¬DeletesAccount (sampleKept sampleUndone) sampleSavings :=
  ⟨⟨by decide +kernel, sampleKept_reached _, by decide +kernel,
      not_deletesAccount (by decide +kernel) (by decide +kernel)⟩,
    by decide +kernel, sampleKept_reached _, by decide +kernel,
      not_deletesAccount (by decide +kernel) (by decide +kernel)⟩

end Pfv
