import Pfv.Models.Database

/-!
# Organisations and their members

The rows behind membership (`backend/app/models/user.py`, `backend/app/models/invitation.py`):
organisations, users and invitations, with the import batches, whose foreign key to the user that
created them refuses the deletion of that user. Columns no modelled function reads (passwords,
display names, session and multi-factor fields) are left out, and so are the tables whose references
to a user the database clears or deletes by itself. Times are in seconds, and names are compared as
the strings that are stored.

## Main definitions

* `Organization`, `User`, `Invitation`, and `Members`: the tables.
* `User.isActiveOwner`, `Members.activeOwners`: the owners an organisation can act through.
* `UserChange`: the columns of a user that a flush writes.
-/

namespace Pfv

inductive Role
  | owner
  | admin
  | member
  deriving DecidableEq

structure Organization where
  id : ℕ := 0
  name : String
  billingCycleDay : ℕ := 1
  allowManualBalanceAdjustment : Bool := false
  deriving DecidableEq

structure User where
  id : ℕ := 0
  orgId : ℕ
  username : String
  email : String
  emailVerified : Bool := false
  role : Role := .owner
  isSuperadmin : Bool := false
  isActive : Bool := true
  deriving DecidableEq

/-- Pending org-membership invitation; `openEmail` is set while it is the live pending invite for
its organisation and email. -/
structure Invitation where
  id : ℕ := 0
  orgId : ℕ
  email : String
  role : Role
  openEmail : Option String
  createdBy : ℕ
  expiresAt : ℕ
  acceptedAt : Option ℕ := none
  revokedAt : Option ℕ := none
  deriving DecidableEq

instance : Row Organization := ⟨Organization.id, fun n o => { o with id := n }, fun _ _ => rfl⟩

instance : Row User := ⟨User.id, fun n u => { u with id := n }, fun _ _ => rfl⟩

instance : Row Invitation := ⟨Invitation.id, fun n v => { v with id := n }, fun _ _ => rfl⟩

/-- Not accepted, not revoked, not expired. -/
def Invitation.isPending (inv : Invitation) (now : ℕ) : Prop :=
  inv.acceptedAt = none ∧ inv.revokedAt = none ∧ now < inv.expiresAt

instance (inv : Invitation) (now : ℕ) : Decidable (inv.isPending now) :=
  inferInstanceAs (Decidable (_ ∧ _ ∧ _))

/-- The tables behind membership. -/
structure Members where
  organizations : Table Organization
  users : Table User
  invitations : Table Invitation
  importBatches : Table ImportBatch

/-- An owner of the organisation whose account is active. -/
def User.isActiveOwner (u : User) (org : ℕ) : Prop :=
  u.orgId = org ∧ u.role = .owner ∧ u.isActive = true

instance (u : User) (org : ℕ) : Decidable (u.isActiveOwner org) :=
  inferInstanceAs (Decidable (_ ∧ _ ∧ _))

/-- The columns of one user that a flush writes: those that were assigned another value than the one
that was read. -/
structure UserChange where
  id : ℕ
  role : Option Role := none
  isActive : Option Bool := none
  emailVerified : Option Bool := none
  deriving DecidableEq

/-- The row after its columns are written. -/
def UserChange.apply (c : UserChange) (u : User) : User :=
  { u with
    role := c.role.getD u.role
    isActive := c.isActive.getD u.isActive
    emailVerified := c.emailVerified.getD u.emailVerified }

namespace Members

/-- The member of an organisation with a given id. -/
def member? (db : Members) (id org : ℕ) : Option User :=
  (db.users.get? id).filter (·.orgId = org)

/-- The user with a given email. -/
def userByEmail? (db : Members) (email : String) : Option User :=
  db.users.rows.find? (·.email = email)

/-- The number of active owners of an organisation (`_active_owner_count`). -/
def activeOwners (db : Members) (org : ℕ) : ℕ :=
  (db.users.rows.filter fun u => u.isActiveOwner org).length

/-- Flush the change of one user. A row that is gone makes the flush fail. -/
def writeUser (db : Members) (c : UserChange) : Except ServiceError Members := do
  let _ ← orRaise (db.users.get? c.id) (.database "StaleDataError")
  pure { db with users := db.users.modify c.id c.apply fun _ => rfl }

end Members

/-- A column is written when it is assigned a value other than the one that was read. -/
def assigned {α : Type} [DecidableEq α] (old new : α) : Option α :=
  if new = old then none else some new

end Pfv
