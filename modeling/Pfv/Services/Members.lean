import Pfv.Models.Members

/-!
# Membership services

Removing a member and accepting an invitation (`backend/app/services/invitation_service.py`), the
superadmin's edits of a membership (`backend/app/services/admin_org_members_service.py`) and the
merge of two users (`backend/app/services/user_merge_service.py`), each with the authentication of
its route. A service reads and checks first, and ends with a plan of what it writes; the writes are
flushed and committed later. `accept_invitation` locks the row of the invitation before it reads;
nothing else is locked.

## Main definitions

* `removeMember`, `updateMember`, `mergeUsers`, `acceptInvitation`: the checks, with their plans.
* `MemberPlan`: what is written.
* `MemberPlan.write`: the writes.
-/

namespace Pfv

/-- Marking an invitation accepted. -/
structure Acceptance where
  invitationId : ℕ
  acceptedAt : ℕ
  deriving DecidableEq

/-- What a membership request writes once its checks have passed. -/
inductive MemberPlan
  | nothing
  | change (c : UserChange)
  | merge (source target : ℕ) (carried : Bool)
  | reactivate (c : UserChange) (a : Acceptance)
  | join (user : User) (a : Acceptance)

/-! ### Authentication -/

/-- `get_current_user`. -/
def getCurrentUser (db : Members) (actor : ℕ) : Except ServiceError User :=
  orRaise ((db.users.get? actor).filter (·.isActive))
    (.httpException 401 "User not found or inactive")

/-- `require_org_admin`. -/
def requireOrgAdmin (db : Members) (actor : ℕ) : Except ServiceError User := do
  let currentUser ← getCurrentUser db actor
  raiseIf (currentUser.role ≠ .owner ∧ currentUser.role ≠ .admin)
    (.httpException 403 "Admin or owner role required")
  pure currentUser

/-- `require_permission("orgs.manage")`: superadmins alone hold platform permissions. -/
def requireOrgsManage (db : Members) (actor : ℕ) : Except ServiceError User := do
  let currentUser ← getCurrentUser db actor
  raiseIf (currentUser.isSuperadmin = false) (.httpException 403 "Forbidden")
  pure currentUser

/-! ### Members -/

/-- An active owner may only be removed by an owner, and not as the last one. -/
def checkOwnerRemoval (db : Members) (org : ℕ) (currentUser target : User) :
    Except ServiceError Unit :=
  if target.role = .owner then do
    raiseIf (currentUser.role ≠ .owner) (.conflict "Only an owner can remove another owner")
    raiseIf (db.activeOwners org ≤ 1) (.conflict "Cannot remove the last owner of the organization")
  else pure ()

/-- `remove_member`. A member that was removed before is left as it is. -/
def removeMember (db : Members) (actor targetUserId : ℕ) : Except ServiceError MemberPlan := do
  let currentUser ← requireOrgAdmin db actor
  raiseIf (targetUserId = currentUser.id) (.conflict "You cannot remove yourself")
  let target ← orRaise (db.member? targetUserId currentUser.orgId) (.notFound "Member")
  if target.isActive = false then
    pure .nothing
  else do
    checkOwnerRemoval db currentUser.orgId currentUser target
    pure (.change { id := target.id, isActive := some false })

/-- `AdminMemberUpdateRequest`. -/
structure MemberUpdate where
  role : Option Role := none
  isActive : Option Bool := none

/-- The guard on the last owner of `update_member`. -/
def checkLastOwner (db : Members) (org : ℕ) (target : User) (body : MemberUpdate) :
    Except ServiceError Unit :=
  let willBecomeInactive := body.isActive = some false ∧ target.isActive = true
  let willBeDemoted := target.role = .owner ∧ ∃ r ∈ body.role, r ≠ .owner
  raiseIf (((willBecomeInactive ∨ willBeDemoted) ∧ target.role = .owner) ∧ db.activeOwners org ≤ 1)
    (.conflict "Cannot remove the last active owner of the organization")

/-- The columns `update_member` assigns: a field that is given and differs. -/
def MemberUpdate.changeOf (body : MemberUpdate) (target : User) : UserChange :=
  { id := target.id
    role := body.role.bind (assigned target.role)
    isActive := body.isActive.bind (assigned target.isActive) }

/-- `update_member`. A request that changes nothing writes nothing. -/
def updateMember (db : Members) (actor org userId : ℕ) (body : MemberUpdate) :
    Except ServiceError MemberPlan := do
  let actor ← requireOrgsManage db actor
  let _ ← orRaise (db.organizations.get? org) (.notFound "Organization")
  raiseIf (body.role = none ∧ body.isActive = none) (.validation "No fields to update")
  raiseIf (userId = actor.id) (.validation "You cannot modify your own membership here")
  let target ← orRaise (db.member? userId org) (.notFound "Member")
  raiseIf target.isSuperadmin
    (.conflict "Cannot modify a platform superadmin via org-member admin")
  checkLastOwner db org target body
  let change := body.changeOf target
  pure (if change.role = none ∧ change.isActive = none then .nothing else .change change)

/-- The guard of a merge on the last active owner of the organisation of the source. -/
def checkMergeKeepsOwner (db : Members) (source target : User) : Except ServiceError Unit :=
  let otherActiveOwners :=
    (db.users.rows.filter fun u => u.isActiveOwner source.orgId ∧ u.id ≠ source.id).length
  let targetPreservesInvariant := target.isActiveOwner source.orgId
  raiseIf ((source.role = .owner ∧ source.isActive = true) ∧ otherActiveOwners = 0 ∧
      ¬targetPreservesInvariant)
    (.conflict (s!"Cannot merge: source is the only active owner of org {source.orgId}. " ++
      "Promote another user to owner in that org first, then retry."))

/-- The guards of `merge_users`. -/
def planMerge (db : Members) (sourceUserId targetUserId : ℕ) : Except ServiceError MemberPlan := do
  raiseIf (sourceUserId = targetUserId) (.validation "source and target must be different users")
  let source ← orRaise (db.users.get? sourceUserId)
    (.notFound s!"source user {sourceUserId} not found")
  let target ← orRaise (db.users.get? targetUserId)
    (.notFound s!"target user {targetUserId} not found")
  raiseIf (source.orgId ≠ target.orgId)
    (.conflict ("cross-org merge is not supported; both users must belong to " ++
      "the same organization"))
  raiseIf (source.isSuperadmin = true ∧ target.isSuperadmin = false)
    (.conflict ("source user is a superadmin; promote target first or pick a " ++
      "different target"))
  checkMergeKeepsOwner db source target
  pure (.merge sourceUserId targetUserId (source.emailVerified && !target.emailVerified))

/-- `merge_users`. -/
def mergeUsers (db : Members) (actor sourceUserId targetUserId : ℕ) :
    Except ServiceError MemberPlan := do
  let _ ← requireOrgsManage db actor
  planMerge db sourceUserId targetUserId

/-! ### Accepting an invitation -/

/-- What the invitation token and the body of the request say; `email` is the email of the token
after `_normalize_email`. -/
structure AcceptInvitation where
  invitationId : ℕ
  email : String
  username : String

/-- `InvitationUnavailable`, as the route reports it. -/
def invitationUnavailable : ServiceError := .httpException 410 "invitation_unavailable"

/-- `USERNAME_PATTERN`. -/
def usernameChar (c : Char) : Bool :=
  ('a' ≤ c ∧ c ≤ 'z') ∨ ('A' ≤ c ∧ c ≤ 'Z') ∨ ('0' ≤ c ∧ c ≤ '9') ∨ c = '.' ∨ c = '_' ∨ c = '-'

/-- The constraints on a new username. -/
def checkUsername (username : String) : Except ServiceError Unit :=
  raiseIf (username.length < 3 ∨ 64 < username.length ∨ ¬username.toList.all usernameChar)
    (.validation ("Username must be 3-64 chars " ++
      "and contain only letters, digits, dot, underscore, hyphen."))

/-- The plan for the user found under the email of the invitation: a removed member of the same
organisation is reactivated with the invited role, and anybody else makes the invitation
unavailable. Without such a user a new one joins. -/
def acceptanceOf (inv : Invitation) (body : AcceptInvitation) (now : ℕ) :
    Option User → Except ServiceError MemberPlan
  | some existing =>
      if existing.orgId = inv.orgId ∧ existing.isActive = false then
        pure (.reactivate
          { id := existing.id
            role := assigned existing.role inv.role
            isActive := some true
            emailVerified := assigned existing.emailVerified true }
          { invitationId := inv.id, acceptedAt := now })
      else .error invitationUnavailable
  | none => do
      checkUsername body.username
      pure (.join
        { orgId := inv.orgId
          username := body.username
          email := inv.email
          emailVerified := true
          role := inv.role }
        { invitationId := inv.id, acceptedAt := now })

/-- `accept_invitation`, with the row of the invitation locked. -/
def acceptInvitation (db : Members) (body : AcceptInvitation) (now : ℕ) :
    Except ServiceError MemberPlan := do
  let inv ← orRaise (db.invitations.get? body.invitationId) invitationUnavailable
  raiseIf (body.email ≠ inv.email) invitationUnavailable
  raiseIf (¬inv.isPending now) invitationUnavailable
  acceptanceOf inv body now (db.userByEmail? inv.email)

/-! ### Writes -/

/-- Mark an invitation accepted. -/
def markAccepted (db : Members) (a : Acceptance) : Except ServiceError Members := do
  let _ ← orRaise (db.invitations.get? a.invitationId) (.database "StaleDataError")
  pure { db with
    invitations := db.invitations.modify a.invitationId
      (fun inv => { inv with acceptedAt := some a.acceptedAt, openEmail := none }) fun _ => rfl }

/-- Store a new user; its organisation must exist, and its username and email be free. -/
def insertUser (db : Members) (user : User) : Except ServiceError Members := do
  raiseIf (db.organizations.get? user.orgId = none ∨
      ∃ u ∈ db.users.rows, u.username = user.username ∨ u.email = user.email)
    (.conflict "That username is already taken")
  pure { db with users := db.users.insert user }

/-- Reassign the invitations a user created. -/
def reassignInvitations (db : Members) (source target : ℕ) : Except ServiceError Members := do
  raiseIf (db.users.get? target = none ∧ ∃ inv ∈ db.invitations.rows, inv.createdBy = source)
    (.database "IntegrityError")
  pure { db with
    invitations := db.invitations.mapRows
      (fun inv => if inv.createdBy = source then { inv with createdBy := target } else inv)
      fun inv => by split_ifs <;> rfl }

/-- Delete a user. An import batch the user created refuses it. -/
def deleteUser (db : Members) (id : ℕ) : Except ServiceError Members := do
  raiseIf (db.users.get? id ≠ none ∧
      ((∃ b ∈ db.importBatches.rows, b.createdByUserId = id) ∨
        ∃ inv ∈ db.invitations.rows, inv.createdBy = id))
    (.database "IntegrityError")
  pure { db with users := db.users.filter (·.id ≠ id) }

/-- Carry the verified email over to the target of a merge. -/
def carryVerified (db : Members) (target : ℕ) (carried : Bool) : Except ServiceError Members :=
  if carried then db.writeUser { id := target, emailVerified := some true } else pure db

/-- The writes of a membership request. -/
def MemberPlan.write (db : Members) : MemberPlan → Except ServiceError Members
  | .nothing => pure db
  | .change c => db.writeUser c
  | .merge source target carried => do
      let reassigned ← reassignInvitations db source target
      let verified ← carryVerified reassigned target carried
      deleteUser verified source
  | .reactivate c a => do
      let written ← db.writeUser c
      markAccepted written a
  | .join user a => do
      let joined ← insertUser db user
      markAccepted joined a

end Pfv
