import Pfv.Accounts.Inactive
import Pfv.Services.OrgData

/-!
# Deleting accounts

`delete_account` of `backend/app/routers/accounts.py` on the database with all its foreign keys, and
the requests of the ledger on that database. Before the delete, the route looks at the balance of
the account and counts the transactions on it; what else refers to the account is left to the
database.

## Main definitions

* `deleteAccount`: the route.
* `Tenancy.ledger`, `Tenancy.withLedger`: the ledger in a database, and the database with another
  one.
* `AccountRequest`: a request of the ledger, an update of an account or its deletion.
-/

namespace Pfv

/-! ### The route -/

/-- `assert_no_dependents`, given the count of the rows. -/
def assertNoDependents (count : ℕ) (noun resource : String) : Except ServiceError Unit :=
  raiseIf (0 < count) (.conflict ("Cannot delete: " ++ toString count ++ " " ++ noun ++
    "(s) use this " ++ resource))

/-- The account of an organisation with a given id. -/
def Tenancy.account? (db : Tenancy) (id org : ℕ) : Option Account :=
  ((db .accounts).get? id).filter (·.orgId = org)

/-- `delete_account`. -/
def deleteAccount (db : Tenancy) (org id : ℕ) : Except ServiceError Tenancy := do
  let account ← orRaise (db.account? id org) (.httpException 404 "Account not found")
  raiseIf (account.balance ≠ 0) (.httpException 409 ("Cannot delete account with balance " ++
    formatCents account.balance ++ ". Transfer the balance first."))
  assertNoDependents ((db .transactions).rows.filter fun t : Transaction =>
    t.accountId = account.id ∧ t.orgId = org).length "transaction" "account"
  db.deleteWhere .accounts fun a => a.id = account.id

/-! ### The requests -/

namespace Tenancy

/-- The ledger in a database. -/
def ledger (db : Tenancy) : Db where
  accountTypes :=
    { rows := (db .accountTypes).rows.map AccountTypeRow.toAccountType
      next := (db .accountTypes).next
      nodup := by
        rw [List.map_map]
        exact (db .accountTypes).nodup
      fresh := by
        intro a ha
        obtain ⟨row, hrow, rfl⟩ := List.mem_map.mp ha
        exact (db .accountTypes).fresh row hrow }
  accounts := db .accounts
  categories := db .categories
  transactions := db .transactions
  recurring := db .recurringTransactions
  importBatches := db .importBatches

/-- The database with the tables of a ledger. The tags of a transaction go with it. -/
def withLedger (db : Tenancy) (ledger : Db) : Tenancy
  | .accounts => ledger.accounts
  | .categories => ledger.categories
  | .transactions => ledger.transactions
  | .recurringTransactions => ledger.recurring
  | .importBatches => ledger.importBatches
  | .transactionTags => (db .transactionTags).filter fun j : TransactionTag =>
      (ledger.transactions.get? j.transactionId).isSome
  | t => db t

end Tenancy

/-- A request of the ledger, an update of an account or its deletion. -/
inductive AccountRequest
  | book (r : BookRequest)
  | deleteAccount (org id : ℕ)

/-- Answer a request. -/
def AccountRequest.step (db : Tenancy) : AccountRequest → Except ServiceError Tenancy
  | .book r => db.withLedger <$> r.step db.ledger
  | .deleteAccount org id => Pfv.deleteAccount db org id

/-- The databases reached from one without accounts by serving requests, failed ones rolled back. -/
def Tenancy.Reached (db : Tenancy) : Prop :=
  ∃ (db₀ : Tenancy) (rs : List AccountRequest), db₀.ledger.Seeded ∧
    serveAll AccountRequest.step db₀ rs = db

end Pfv
