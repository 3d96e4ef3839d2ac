import Pfv.Services.AccountTypeChange

/-!
# Updates of accounts

An update of an account (`backend/app/routers/accounts.py`). One that touches neither the type nor
the close day stays on the session of the request, the others go through the transaction that locks
the account. Both apply the other fields of the request by the same function, which refuses to
deactivate an account whose balance is not zero. That setting an account as the default clears the
flag of the other accounts is left out: no service of the ledger reads it.

## Main definitions

* `updateAccount`: the request.

## Main results

* `updateAccount_ok`: an update keeps the balance, and the account is inactive afterwards only if it
  was before or has a balance of zero.
-/

namespace Pfv

/-- The body of an update: it leaves the type and the close day alone, or it touches them. -/
inductive AccountPut
  | plain (body : AccountFields)
  | typed (body : AccountUpdate)

/-- An account as the updates see it. -/
def Db.accountRow (db : Db) (id : ℕ) : Option AccountRow :=
  (db.accounts.get? id).map fun a => { toAccount := a }

/-- `update_account`. -/
def updateAccount (db : Db) (org id : ℕ) : AccountPut → Except ServiceError Db
  | .plain body => do
      let account ← orRaise ((db.accountRow id).filter (·.orgId = org))
        (.httpException 404 "Account not found")
      let account ← applyNonTypeFields account body
      pure { db with accounts := db.accounts.put account.toAccount }
  | .typed body => do
      let target ← targetTypeId org (db.accountRow id) body
      let account ← lockedUpdate db.accountTypes org (db.accountRow id) target body
      pure { db with accounts := db.accounts.put account.toAccount }

/-! ### What an update does -/

/-- A later version of an account: its balance is the same, and it was deactivated only at a balance
of zero. -/
structure Account.Updated (acct acct' : Account) : Prop where
  id : acct'.id = acct.id
  org : acct'.orgId = acct.orgId
  balance : acct'.balance = acct.balance
  inactive : acct'.isActive = false → acct.isActive = false ∨ acct.balance = 0

theorem applyNonTypeFields_ok {account account' : AccountRow} {body : AccountFields}
    (h : applyNonTypeFields account body = .ok account') :
    account.toAccount.Updated account'.toAccount := by
  unfold applyNonTypeFields at h
  simp only [↓unit_bind_eq_ok, raiseIf_eq_ok, pure_eq_ok] at h
  obtain ⟨hguard, rfl⟩ := h
  refine ⟨rfl, rfl, rfl, fun hinactive => ?_⟩
  cases hbody : body.isActive with
  | none =>
    rw [hbody] at hinactive
    exact .inl hinactive
  | some active =>
    rw [hbody] at hinactive
    obtain rfl : active = false := hinactive
    right
    by_contra hbalance
    exact hguard ⟨hbody, hbalance⟩

theorem accountRow_eq_some {db : Db} {org id : ℕ} {row : AccountRow}
    (h : (db.accountRow id).filter (·.orgId = org) = some row) :
    db.account? id org = some row.toAccount := by
  obtain ⟨hrow, horg⟩ := Option.filter_eq_some_iff.mp h
  obtain ⟨acct, hacct, rfl⟩ := Option.map_eq_some_iff.mp hrow
  exact Db.account?_eq_some.mpr ⟨hacct, of_decide_eq_true horg⟩

/-- An update writes one account of the organisation back, with the balance that it had. -/
theorem updateAccount_ok {db db' : Db} {org id : ℕ} {body : AccountPut}
    (h : updateAccount db org id body = .ok db') :
    ∃ acct acct', db.account? id org = some acct ∧ acct.Updated acct' ∧
      db' = { db with accounts := db.accounts.put acct' } := by
  cases body with
  | plain body =>
    simp only [updateAccount, bind_eq_ok, orRaise_eq_ok, pure_eq_ok] at h
    obtain ⟨row, hrow, row', hfields, rfl⟩ := h
    exact ⟨_, _, accountRow_eq_some hrow, applyNonTypeFields_ok hfields, rfl⟩
  | typed body =>
    simp only [updateAccount, lockedUpdate, applyTypeChangeInSession, ↓unit_bind_eq_ok, bind_eq_ok,
      orRaise_eq_ok, pure_eq_ok] at h
    obtain ⟨target, -, row', ⟨typed, ⟨row, hrow, _, -, -, rfl⟩, hfields⟩, rfl⟩ := h
    have hupdated := applyNonTypeFields_ok hfields
    exact ⟨_, _, accountRow_eq_some hrow,
      ⟨hupdated.id, hupdated.org, hupdated.balance, hupdated.inactive⟩, rfl⟩

end Pfv
