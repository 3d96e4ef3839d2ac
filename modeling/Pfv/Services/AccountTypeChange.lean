import Pfv.Services.Accounts
import Pfv.Base.Session

/-!
# Updates of the type of an account

An update that touches the type or the close day of an account runs in a transaction of its own
(`backend/app/routers/accounts.py` and `backend/app/services/account_type_change_service.py`). The
account is locked and read again, the close day is checked against the old and the new type, the
type is changed and the other fields of the request are applied. A request that does not name a type
takes the one of the account as the target, which it reads before it has the lock.

## Main definitions

* `AccountFields`, `applyNonTypeFields`: the fields that every update writes.
* `applyTypeChangeInSession`, `lockedUpdate`: what is written under the lock.
* `updateAccountAtomic`: the request when nothing runs besides it.
* `AccountUpdates.sessions`: requests on one account that interleave.
-/

namespace Pfv

/-- A row of `accounts` with the flag that the ledger does not read. -/
structure AccountRow extends Account where
  isDefault : Bool := false
  deriving DecidableEq

/-- An update that touches the type or the close day, with the fields that its payload carries. The
outer option of `closeDay` says whether the payload carries it, the inner one whether it is null. -/
structure AccountUpdate where
  name : Option String := none
  accountTypeId : Option ℕ := none
  isActive : Option Bool := none
  closeDay : Option (Option ℕ) := none
  isDefault : Option Bool := none
  openingBalance : Option ℤ := none
  openingBalanceDate : Option Date := none
  touches : accountTypeId ≠ none ∨ closeDay ≠ none
  closeDay_range : ∀ d, closeDay = some (some d) → 1 ≤ d ∧ d ≤ 28
  lower : ∀ b ∈ openingBalance, -10 ^ 12 < b
  upper : ∀ b ∈ openingBalance, b < 10 ^ 12

/-- The fields of an update other than the type and the close day. -/
structure AccountFields where
  name : Option String := none
  isActive : Option Bool := none
  isDefault : Option Bool := none
  openingBalance : Option ℤ := none
  openingBalanceDate : Option Date := none
  lower : ∀ b ∈ openingBalance, -10 ^ 12 < b
  upper : ∀ b ∈ openingBalance, b < 10 ^ 12

def AccountUpdate.fields (body : AccountUpdate) : AccountFields where
  name := body.name
  isActive := body.isActive
  isDefault := body.isDefault
  openingBalance := body.openingBalance
  openingBalanceDate := body.openingBalanceDate
  lower := body.lower
  upper := body.upper

section

variable (accountTypes : Table AccountType) (org : ℕ)

/-- The slug of an account type. -/
def typeSlug (typeId : ℕ) : Option String :=
  (accountTypes.get? typeId).bind (·.slug)

def validateCloseDayCascade (sourceSlug targetSlug : Option String)
    (closeDay : Option (Option ℕ)) : Except ServiceError Unit :=
  if targetSlug = some "credit_card" then
    if sourceSlug = some "credit_card" then
      raiseIf (closeDay = some none)
        (.httpException 400 "close_day is required for credit_card accounts")
    else
      raiseIf (closeDay.join = none)
        (.httpException 400 "close_day is required when changing to credit_card")
  else
    raiseIf (closeDay.join ≠ none)
      (.httpException 400 "close_day is only allowed on credit_card accounts")

/-- The type change of a locked account. -/
def applyTypeChangeInSession (row : Option AccountRow) (targetTypeId : ℕ)
    (closeDay : Option (Option ℕ)) : Except ServiceError AccountRow := do
  let account ← orRaise (row.filter (·.orgId = org)) (.httpException 404 "Account not found")
  let targetType ← orRaise ((accountTypes.get? targetTypeId).filter (·.orgId = org))
    (.httpException 422 "Invalid account type")
  validateCloseDayCascade (typeSlug accountTypes account.accountTypeId) targetType.slug closeDay
  let newCloseDay :=
    if targetType.slug = some "credit_card" then closeDay.getD account.closeDay else none
  pure { account with accountTypeId := targetTypeId, closeDay := newCloseDay }

/-- The other fields of an update. -/
def applyNonTypeFields (account : AccountRow) (body : AccountFields) :
    Except ServiceError AccountRow := do
  raiseIf (body.isActive = some false ∧ account.balance ≠ 0)
    (.httpException 409 ("Cannot deactivate account with balance " ++ formatCents account.balance ++
      ". Transfer the balance first."))
  pure
    { account with
      name := body.name.getD account.name
      isActive := body.isActive.getD account.isActive
      isDefault := body.isDefault.getD account.isDefault
      openingBalance := body.openingBalance.getD account.openingBalance
      openingBalanceDate := body.openingBalanceDate.getD account.openingBalanceDate }

/-- The target of a request: the type it names, or the type of the account, which is read without a
lock. -/
def targetTypeId (row : Option AccountRow) (body : AccountUpdate) : Except ServiceError ℕ :=
  match body.accountTypeId with
  | some typeId => .ok typeId
  | none => do
      let account ← orRaise (row.filter (·.orgId = org)) (.httpException 404 "Account not found")
      pure account.accountTypeId

/-- What a request writes once it has the lock. -/
def lockedUpdate (row : Option AccountRow) (target : ℕ) (body : AccountUpdate) :
    Except ServiceError AccountRow := do
  let account ← applyTypeChangeInSession accountTypes org row target body.closeDay
  applyNonTypeFields account body.fields

/-- `_update_account_atomic` when nothing runs besides it. -/
def updateAccountAtomic (row : Option AccountRow) (body : AccountUpdate) :
    Except ServiceError (Option AccountRow) := do
  let target ← targetTypeId org row body
  let account ← lockedUpdate accountTypes org row target body
  pure (some account)

end

/-! ### Requests that interleave -/

/-- The row of the account, whether a request has it locked, and the requests that have committed,
in the order of their commits, which nothing reads. -/
structure AccountUpdates where
  row : Option AccountRow
  locked : Bool := false
  committed : List AccountUpdate := []

/-- Where a request is. -/
inductive UpdatePhase
  | reading (body : AccountUpdate)
  | locking (body : AccountUpdate) (target : ℕ)
  | committing (body : AccountUpdate) (account : AccountRow)

namespace AccountUpdates

/-- The next step of a request. A request that finds the account locked waits. -/
def advance (accountTypes : Table AccountType) (org : ℕ) (s : AccountUpdates) :
    UpdatePhase → AccountUpdates × Option UpdatePhase
  | .reading body =>
      match targetTypeId org s.row body with
      | .ok target => (s, some (.locking body target))
      | .error _ => (s, none)
  | .locking body target =>
      if s.locked = true then (s, some (.locking body target))
      else
        match lockedUpdate accountTypes org s.row target body with
        | .ok account => ({ s with locked := true }, some (.committing body account))
        | .error _ => (s, none)
  | .committing body account =>
      ({ row := some account, locked := false, committed := s.committed ++ [body] }, none)

/-- Requests of one organisation that update one account. -/
def sessions (accountTypes : Table AccountType) (org : ℕ) :
    Sessions AccountUpdates AccountUpdate UpdatePhase where
  start := .reading
  advance := advance accountTypes org

end AccountUpdates

end Pfv
