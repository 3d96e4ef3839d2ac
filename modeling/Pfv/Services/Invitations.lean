import Pfv.Models.Schemas
import Pfv.Services.Members

/-!
# Invitations

Creating and revoking an invitation (`backend/app/services/invitation_service.py`), each with the
authentication of its route (`backend/app/routers/org_members.py`). The mail to the invitee is left
out.

## Main definitions

* `createInvitation`, `revokeInvitation`.
-/

namespace Pfv

variable [Casing]

/-- `normalize_email`. -/
def normalizeEmail (value : String) : String := Casing.lower (strip value)

/-- `INVITATION_TTL`, in seconds. -/
def invitationTtl : ℕ := 7 * 86400

/-- An expired invitation that still holds the slot of its email. -/
def Invitation.isStale (inv : Invitation) (now org : ℕ) (email : String) : Prop :=
  inv.orgId = org ∧ inv.email = email ∧ inv.acceptedAt = none ∧ inv.revokedAt = none ∧
    inv.expiresAt ≤ now ∧ inv.openEmail ≠ none

instance (inv : Invitation) (now org : ℕ) (email : String) :
    Decidable (inv.isStale now org email) :=
  inferInstanceAs (Decidable (_ ∧ _ ∧ _ ∧ _ ∧ _ ∧ _))

/-- `_clear_expired_open_invites`. -/
def clearExpiredOpenInvites (now : ℕ) (db : Members) (org : ℕ) (email : String) : Members :=
  { db with
    invitations := db.invitations.mapRows
      (fun inv => if inv.isStale now org email then { inv with openEmail := none } else inv)
      fun inv => by split_ifs <;> rfl }

/-- Nobody with the email is an active member, or belongs to another organisation. -/
def checkInvitee (db : Members) (org : ℕ) (email : String) : Except ServiceError Unit :=
  match db.userByEmail? email with
  | none => pure ()
  | some existing => do
      raiseIf (existing.orgId = org ∧ existing.isActive = true)
        (.conflict "This person is already a member of the org")
      raiseIf (existing.orgId ≠ org) (.conflict "Email already registered to another organization")

/-- `create_invitation`. The schema of the request admits the roles admin and member. -/
def createInvitation (now : ℕ) (db : Members) (actor : ℕ) (email : String) (role : Role) :
    Except ServiceError Members := do
  let currentUser ← requireOrgAdmin db actor
  raiseIf (role = .owner) (.schema "role")
  let norm := normalizeEmail email
  checkInvitee db currentUser.orgId norm
  let cleared := clearExpiredOpenInvites now db currentUser.orgId norm
  raiseIf (∃ inv ∈ cleared.invitations.rows, inv.orgId = currentUser.orgId ∧
    inv.openEmail = some norm)
    (.conflict "This email is already invited")
  let inv : Invitation :=
    { orgId := currentUser.orgId, email := norm, openEmail := some norm, role := role
      createdBy := currentUser.id, expiresAt := now + invitationTtl }
  pure { cleared with invitations := cleared.invitations.insert inv }

/-- `revoke_invitation`. An invitation that was accepted or revoked before is left as it is. -/
def revokeInvitation (now : ℕ) (db : Members) (actor invitationId : ℕ) :
    Except ServiceError Members := do
  let currentUser ← requireOrgAdmin db actor
  let inv ← orRaise ((db.invitations.get? invitationId).filter (·.orgId = currentUser.orgId))
    (.httpException 404 "Invitation not found")
  if inv.acceptedAt ≠ none ∨ inv.revokedAt ≠ none then pure db
  else pure { db with
    invitations := db.invitations.modify inv.id
      (fun inv => { inv with revokedAt := some now, openEmail := none }) fun _ => rfl }

end Pfv
