import Pfv.Base.Projection
import Pfv.Base.Slices
import Pfv.Members.Owners
import Pfv.Services.Invitations

/-!
# The life of an invitation under concurrency

Requests that create, revoke and accept invitations interleave with each other and with the other
membership requests. Accepting locks the invitation from the check to the commit; revoking reads it
without a lock and writes it later. So an invitation that was revoked is never accepted, and it is
accepted at most once; but a revoke that has read it before may still stamp it after it was
accepted.

## Main definitions

* `InvitingRequest`, `invitingSystem`: the requests in two steps, with the locks of the code.
* `Members.InvitationsOk`: at most one open invitation for an organisation and email.
* `Invitation.Evolves`: what may still happen to an invitation.
* `InvitingPlan.RevokesUnaccepted`: a revoke finds its invitation not accepted when it commits.

## Main results

* `invitations_of_interleaving`: open slots stay unique, and every invitation evolves.
* `acceptances_of_interleaving`: each acceptance marks one invitation and adds or reactivates one
  user.
* `exclusive_iff_revokesUnaccepted`: when no invitation is both accepted and revoked.
-/

namespace Pfv

/-! ### The system -/

inductive InvitingRequest
  | member (r : MemberRequest)
  | create (now actor : ℕ) (email : String) (role : Role)
  | revoke (now actor invitationId : ℕ)

/-- What a request writes: what a membership request does, a new invitation, or a revocation. -/
inductive InvitingPlan
  | member (p : MemberPlan)
  | create (now : ℕ) (inv : Invitation)
  | revoke (now invitationId : ℕ)

/-- An invitation for a slot is open. -/
def Members.SlotTaken (db : Members) (org : ℕ) (email : String) : Prop :=
  ∃ inv ∈ db.invitations.rows, inv.orgId = org ∧ inv.openEmail = some email

instance (db : Members) (org : ℕ) (email : String) : Decidable (db.SlotTaken org email) :=
  inferInstanceAs (Decidable (∃ inv ∈ db.invitations.rows, _ ∧ _))

/-- The reads of `create_invitation`. -/
def planInvitation [Casing] (now : ℕ) (db : Members) (actor : ℕ) (email : String) (role : Role) :
    Except ServiceError InvitingPlan := do
  let currentUser ← requireOrgAdmin db actor
  raiseIf (role = .owner) (.schema "role")
  let norm := normalizeEmail email
  checkInvitee db currentUser.orgId norm
  raiseIf ((clearExpiredOpenInvites now db currentUser.orgId norm).SlotTaken currentUser.orgId norm)
    (.conflict "This email is already invited")
  pure (.create now
    { orgId := currentUser.orgId, email := norm, openEmail := some norm, role := role
      createdBy := currentUser.id, expiresAt := now + invitationTtl })

/-- The reads of `revoke_invitation`. -/
def planRevocation (now : ℕ) (db : Members) (actor invitationId : ℕ) :
    Except ServiceError InvitingPlan := do
  let currentUser ← requireOrgAdmin db actor
  let inv ← orRaise ((db.invitations.get? invitationId).filter (·.orgId = currentUser.orgId))
    (.httpException 404 "Invitation not found")
  if inv.acceptedAt ≠ none ∨ inv.revokedAt ≠ none then pure (.member .nothing)
  else pure (.revoke now inv.id)

def InvitingRequest.check [Casing] (db : Members) : InvitingRequest →
    Except ServiceError InvitingPlan
  | .member r => (r.check db).map .member
  | .create now actor email role => planInvitation now db actor email role
  | .revoke now actor invitationId => planRevocation now db actor invitationId

/-- Store a new invitation. The organisation and the inviter must exist and the slot be free; any
`IntegrityError` is reported as a lost race. -/
def insertInvitation (db : Members) (inv : Invitation) : Except ServiceError Members := do
  raiseIf (db.SlotTaken inv.orgId inv.email ∨ db.organizations.get? inv.orgId = none ∨
      db.users.get? inv.createdBy = none)
    (.conflict "This email is already invited")
  pure { db with invitations := db.invitations.insert inv }

theorem Invitation.id_revoked (now : ℕ) (inv : Invitation) :
    Row.id ({ inv with revokedAt := some now, openEmail := none } : Invitation) = Row.id inv := rfl

/-- Mark an invitation revoked. -/
def markRevoked (now : ℕ) (db : Members) (invitationId : ℕ) : Except ServiceError Members := do
  let _ ← orRaise (db.invitations.get? invitationId) (.database "StaleDataError")
  pure { db with
    invitations := db.invitations.modify invitationId
      (fun inv => { inv with revokedAt := some now, openEmail := none })
      (Invitation.id_revoked now) }

def InvitingPlan.write (db : Members) : InvitingPlan → Except ServiceError Members
  | .member p => p.write db
  | .create now inv =>
      insertInvitation (clearExpiredOpenInvites now db inv.orgId inv.email) inv
  | .revoke now invitationId => markRevoked now db invitationId

/-- The rows of invitations that a request reads under a lock. -/
def InvitingRequest.locks : InvitingRequest → List ℕ
  | .member r => r.invitationLocks
  | _ => []

/-- The rows of invitations that a plan writes. -/
def InvitingPlan.locks (db : Members) : InvitingPlan → List ℕ
  | .member p => p.invitationLocks db
  | .create now inv =>
      (db.invitations.rows.filter fun i => i.isStale now inv.orgId inv.email).map Invitation.id
  | .revoke _ invitationId => [invitationId]

/-- The membership requests and the requests on invitations of all organisations. -/
def invitingSystem [Casing] : Locking Members InvitingRequest InvitingPlan ℕ ServiceError where
  check db r := (r.check db).map fun p => (db, p)
  commit := InvitingPlan.write
  reads := InvitingRequest.locks
  writes := InvitingPlan.locks

variable {db db' : Members}

theorem requireOrgAdmin_eq_ok {actor : ℕ} {u : User} (h : requireOrgAdmin db actor = .ok u) :
    db.users.get? u.id = some u := by
  unfold requireOrgAdmin getCurrentUser at h
  simp only [bind_eq_ok, ↓unit_bind_eq_ok, orRaise_eq_ok, pure_eq_ok] at h
  obtain ⟨v, hv, -, rfl⟩ := h
  exact Table.get?_self (Option.filter_eq_some_iff.mp hv).1

/-- A creation that is served alone is the one of the serial model, where the organisation of every
user is there. -/
theorem createInvitation_eq_bind [Casing] {now actor : ℕ} {email : String} {role : Role}
    (horg : ∀ u ∈ db.users.rows, db.organizations.get? u.orgId ≠ none) :
    createInvitation now db actor email role =
      planInvitation now db actor email role >>= InvitingPlan.write db := by
  unfold createInvitation planInvitation
  simp only [bind_assoc]
  refine bind_congr_of_ok fun u hu => bind_congr_of_ok fun _ _ => bind_congr_of_ok fun _ _ =>
    bind_congr_of_ok fun _ hfree => ?_
  have hget := requireOrgAdmin_eq_ok hu
  rw [pure_bind, InvitingPlan.write, insertInvitation, raiseIf_of_not]
  · rfl
  · rintro (htaken | hgone | hgone)
    · exact raiseIf_eq_ok.mp hfree htaken
    · exact horg u (Table.get?_mem hget) hgone
    · cases hgone.symm.trans hget

/-- A revocation that is served alone is the one of the serial model. -/
theorem revokeInvitation_eq_bind (now actor invitationId : ℕ) :
    revokeInvitation now db actor invitationId =
      planRevocation now db actor invitationId >>= InvitingPlan.write db := by
  unfold revokeInvitation planRevocation
  simp only [bind_assoc]
  refine bind_congr_of_ok fun u _ => bind_congr_of_ok fun inv hinv => ?_
  have hget : db.invitations.get? inv.id = some inv :=
    Table.get?_self (Option.filter_eq_some_iff.mp (orRaise_eq_ok.mp hinv)).1
  split_ifs
  · rfl
  · rw [pure_bind, InvitingPlan.write, markRevoked, hget]
    rfl

/-! ### What may happen to an invitation -/

/-- What may happen to an invitation from one moment to a later one: it is accepted at most once,
and not after it was revoked; it closes when one of the two happens or it expires, and is not opened
again. -/
structure Invitation.Evolves (a b : Invitation) : Prop where
  orgId : b.orgId = a.orgId
  email : b.email = a.email
  role : b.role = a.role
  expiresAt : b.expiresAt = a.expiresAt
  accepted : a.acceptedAt ≠ none → b.acceptedAt = a.acceptedAt
  revoked : a.revokedAt ≠ none → b.revokedAt ≠ none
  refused : a.revokedAt ≠ none → b.acceptedAt = a.acceptedAt
  closed : b.openEmail = none ∨
    b.openEmail = a.openEmail ∧ b.acceptedAt = a.acceptedAt ∧ b.revokedAt = a.revokedAt

theorem Invitation.Evolves.refl (a : Invitation) : a.Evolves a :=
  ⟨rfl, rfl, rfl, rfl, fun _ => rfl, fun h => h, fun _ => rfl, .inr ⟨rfl, rfl, rfl⟩⟩

theorem Invitation.Evolves.trans {a b c : Invitation} (h : a.Evolves b) (h' : b.Evolves c) :
    a.Evolves c where
  orgId := h'.orgId.trans h.orgId
  email := h'.email.trans h.email
  role := h'.role.trans h.role
  expiresAt := h'.expiresAt.trans h.expiresAt
  accepted ha := by
    have hb := h.accepted ha
    exact (h'.accepted (hb ▸ ha)).trans hb
  revoked ha := h'.revoked (h.revoked ha)
  refused ha := (h'.refused (h.revoked ha)).trans (h.refused ha)
  closed := by
    rcases h'.closed with hc | ⟨hopen, haccepted, hrevoked⟩
    · exact .inl hc
    · rcases h.closed with hb | ⟨hopen', haccepted', hrevoked'⟩
      · exact .inl (hopen.trans hb)
      · exact .inr ⟨hopen.trans hopen', haccepted.trans haccepted', hrevoked.trans hrevoked'⟩

namespace Members

/-- An open invitation has its email in its slot, is neither accepted nor revoked, and shares the
slot with no other. -/
structure InvitationsOk (db : Members) : Prop where
  live : ∀ a ∈ db.invitations.rows, ∀ e ∈ a.openEmail,
    e = a.email ∧ a.acceptedAt = none ∧ a.revokedAt = none
  slots : ∀ a ∈ db.invitations.rows, ∀ b ∈ db.invitations.rows, ∀ e ∈ a.openEmail,
    a.orgId = b.orgId → b.openEmail = some e → a = b

/-- Every invitation is still there, as it may have become. -/
def InvitationsEvolve (db db' : Members) : Prop :=
  ∀ id a, db.invitations.get? id = some a → ∃ b, db'.invitations.get? id = some b ∧ a.Evolves b

theorem InvitationsEvolve.refl (db : Members) : db.InvitationsEvolve db :=
  fun _ a ha => ⟨a, ha, .refl a⟩

theorem InvitationsEvolve.trans {db'' : Members} (h : db.InvitationsEvolve db')
    (h' : db'.InvitationsEvolve db'') : db.InvitationsEvolve db'' := by
  intro id a ha
  obtain ⟨b, hb, hab⟩ := h id a ha
  obtain ⟨c, hc, hbc⟩ := h' id b hb
  exact ⟨c, hc, hab.trans hbc⟩

/-- What a commit does to the invitations: those that its locks cover evolve, the others stay as
they are, only those that it revokes or accepts are stamped so, and at most one is added, open and
in a free slot. -/
structure Commits (locks revoked accepted : List ℕ) (db db' : Members)
    (f : Invitation → Invitation) : Prop where
  id_eq : ∀ a, Row.id (f a) = Row.id a
  evolves : ∀ a ∈ db.invitations.rows, a.Evolves (f a)
  frame : ∀ a ∈ db.invitations.rows, a.id ∉ locks → f a = a
  stamped : ∀ a ∈ db.invitations.rows, a.id ∉ revoked → (f a).revokedAt = a.revokedAt
  accepts : ∀ a ∈ db.invitations.rows,
    (f a).acceptedAt.isSome = (a.acceptedAt.isSome || decide (a.id ∈ accepted))
  table : db'.invitations = db.invitations.mapRows f id_eq ∨
    ∃ inv : Invitation, db'.invitations = (db.invitations.mapRows f id_eq).insert inv ∧
      inv.openEmail = some inv.email ∧ inv.acceptedAt = none ∧ inv.revokedAt = none ∧
        ∀ a ∈ db.invitations.rows, a.orgId = inv.orgId → (f a).openEmail ≠ some inv.email

variable {locks revoked accepted : List ℕ} {f : Invitation → Invitation}

theorem Commits.get? (h : Commits locks revoked accepted db db' f) {id : ℕ} {a : Invitation}
    (ha : db.invitations.get? id = some a) : db'.invitations.get? id = some (f a) := by
  have hmap : (db.invitations.mapRows f h.id_eq).get? id = some (f a) := by
    rw [Table.get?_mapRows, ha]
    rfl
  rcases h.table with htable | ⟨inv, htable, -⟩
  · rw [htable, hmap]
  · rw [htable, Table.get?_insert_of_some _ hmap]

theorem Commits.invitationsEvolve (h : Commits locks revoked accepted db db' f) :
    db.InvitationsEvolve db' :=
  fun _ a ha => ⟨f a, h.get? ha, h.evolves a (Table.get?_mem ha)⟩

theorem Commits.get?_of_not_mem (h : Commits locks revoked accepted db db' f) {id : ℕ}
    {a : Invitation} (ha : db.invitations.get? id = some a) (hid : id ∉ locks) :
    db'.invitations.get? id = some a := by
  have hida : a.id = id := Table.get?_id ha
  rw [h.get? ha, h.frame a (Table.get?_mem ha) (hida ▸ hid)]

theorem Commits.of_eq (h : db'.invitations = db.invitations) (locks revoked : List ℕ) :
    Commits locks revoked [] db db' fun a => a where
  id_eq _ := rfl
  evolves a _ := .refl a
  frame _ _ _ := rfl
  stamped _ _ _ := rfl
  accepts _ _ := by simp
  table := .inl (h.trans (Table.ext (List.map_id _).symm rfl))

/-- A commit whose first writes leave the invitations as they are. -/
theorem Commits.of_same {db₁ : Members} (h : Commits locks revoked accepted db₁ db' f)
    (hsame : db₁.invitations = db.invitations) : Commits locks revoked accepted db db' f where
  id_eq := h.id_eq
  evolves := hsame ▸ h.evolves
  frame := hsame ▸ h.frame
  stamped := hsame ▸ h.stamped
  accepts := hsame ▸ h.accepts
  table := by
    rw [← hsame]
    exact h.table

/-- A commit that changes one invitation. -/
theorem Commits.of_modify {id : ℕ} {g : Invitation → Invitation} (hg : ∀ a, Row.id (g a) = Row.id a)
    (h : db'.invitations = db.invitations.modify id g hg) (hid : id ∈ locks)
    (hstamped : id ∉ revoked → ∀ a, (g a).revokedAt = a.revokedAt)
    (haccepts : ∀ a, (g a).acceptedAt.isSome = (a.acceptedAt.isSome || decide (id ∈ accepted)))
    (hother : ∀ a ∈ accepted, a = id)
    (hevolves : ∀ a, db.invitations.get? id = some a → a.Evolves (g a)) :
    Commits locks revoked accepted db db' fun a => if Row.id a = id then g a else a where
  id_eq a := by
    split_ifs
    · exact hg a
    · rfl
  evolves a ha := by
    split_ifs with haid
    · exact hevolves a (haid ▸ Table.get?_of_mem ha)
    · exact .refl a
  frame a _ ha := if_neg fun haid : a.id = id => ha (haid ▸ hid)
  stamped a _ ha := by
    split_ifs with haid
    · exact hstamped (haid ▸ ha) a
    · rfl
  accepts a _ := by
    split_ifs with haid
    · rw [show a.id = id from haid]
      exact haccepts a
    · have hid' : a.id ∉ accepted := fun h => haid (hother _ h)
      simp [hid']
  table := .inl h

/-- Open slots stay unique when a commit adds at most one invitation in a free one. -/
theorem InvitationsOk.commits (h : db.InvitationsOk)
    (hcommits : Commits locks revoked accepted db db' f) :
    db'.InvitationsOk := by
  -- An invitation that is open after the commit was open before, and it is as it was.
  have hopen : ∀ a ∈ db.invitations.rows, ∀ e ∈ (f a).openEmail, e ∈ a.openEmail ∧
      (f a).acceptedAt = a.acceptedAt ∧ (f a).revokedAt = a.revokedAt := by
    intro a ha e he
    rcases (hcommits.evolves a ha).closed with hnone | ⟨hsame, hrest⟩
    · rw [hnone] at he
      cases he
    · exact ⟨hsame ▸ he, hrest⟩
  have hlive : ∀ a ∈ db.invitations.rows, ∀ e ∈ (f a).openEmail,
      e = (f a).email ∧ (f a).acceptedAt = none ∧ (f a).revokedAt = none := by
    intro a ha e he
    obtain ⟨he, haccepted, hrevoked⟩ := hopen a ha e he
    obtain ⟨hemail, hnone, hnone'⟩ := h.live a ha e he
    exact ⟨hemail.trans (hcommits.evolves a ha).email.symm, haccepted.trans hnone,
      hrevoked.trans hnone'⟩
  have hslots : ∀ a ∈ db.invitations.rows, ∀ b ∈ db.invitations.rows, ∀ e ∈ (f a).openEmail,
      (f a).orgId = (f b).orgId → (f b).openEmail = some e → f a = f b := by
    intro a ha b hb e he horg hbe
    rw [(hcommits.evolves a ha).orgId, (hcommits.evolves b hb).orgId] at horg
    exact congrArg f (h.slots a ha b hb e (hopen a ha e he).1 horg (hopen b hb e hbe).1)
  rcases hcommits.table with htable | ⟨inv, htable, hinv, haccepted, hrevoked, hfree⟩
  · constructor
    · rw [htable]
      rintro _ ha
      obtain ⟨a, hmem, rfl⟩ := List.mem_map.mp ha
      exact hlive a hmem
    · rw [htable]
      rintro _ ha _ hb
      obtain ⟨a, hmem, rfl⟩ := List.mem_map.mp ha
      obtain ⟨b, hmem', rfl⟩ := List.mem_map.mp hb
      exact hslots a hmem b hmem'
  · constructor
    · rw [htable]
      intro _ ha e he
      rcases Table.mem_insert.mp ha with ha | rfl
      · obtain ⟨a, hmem, rfl⟩ := List.mem_map.mp ha
        exact hlive a hmem e he
      · have hemail : inv.openEmail = some e := he
        exact ⟨Option.some.inj (hemail.symm.trans hinv), haccepted, hrevoked⟩
    · rw [htable]
      intro _ ha _ hb e he horg hbe
      rcases Table.mem_insert.mp ha with ha | rfl <;> rcases Table.mem_insert.mp hb with hb | rfl
      · obtain ⟨a, hmem, rfl⟩ := List.mem_map.mp ha
        obtain ⟨b, hmem', rfl⟩ := List.mem_map.mp hb
        exact hslots a hmem b hmem' e he horg hbe
      · obtain ⟨a, hmem, rfl⟩ := List.mem_map.mp ha
        have he' : (f a).openEmail = some inv.email := he.trans (hbe.symm.trans hinv)
        exact absurd he' (hfree a hmem ((hcommits.evolves a hmem).orgId.symm.trans horg))
      · obtain ⟨b, hmem', rfl⟩ := List.mem_map.mp hb
        have hemail : inv.openEmail = some e := he
        have hbe' : (f b).openEmail = some inv.email := hbe.trans (hemail.symm.trans hinv)
        exact absurd hbe' (hfree b hmem' ((hcommits.evolves b hmem').orgId.symm.trans horg.symm))
      · rfl

end Members

/-! ### Commits -/

/-- The acceptance in a plan. -/
def InvitingPlan.acceptance? : InvitingPlan → Option Acceptance
  | .member (.reactivate _ a) => some a
  | .member (.join _ a) => some a
  | _ => none

/-- The invitations that a plan revokes. -/
def InvitingPlan.revoked : InvitingPlan → List ℕ
  | .revoke _ invitationId => [invitationId]
  | _ => []

/-- The invitation that a plan accepts is locked, and neither accepted nor revoked; a user who joins
is the one that it invites; the one that a plan creates is open. -/
structure InvitingPlan.Ready (db : Members) (own : List ℕ) (p : InvitingPlan) : Prop where
  pending : ∀ a ∈ p.acceptance?, a.invitationId ∈ own ∧
    ∃ inv, db.invitations.get? a.invitationId = some inv ∧ inv.acceptedAt = none ∧
      inv.revokedAt = none
  invited : ∀ user a, p = .member (.join user a) →
    ∃ inv, db.invitations.get? a.invitationId = some inv ∧ user.orgId = inv.orgId ∧
      user.email = inv.email
  created : ∀ now inv, p = .create now inv →
    inv.openEmail = some inv.email ∧ inv.acceptedAt = none ∧ inv.revokedAt = none

/-- An acceptance is for the invitation of the request, which is pending, and whoever joins is the
one that it invites. -/
theorem acceptInvitation_acceptance {body : AcceptInvitation} {now : ℕ} {p : MemberPlan}
    (h : acceptInvitation db body now = .ok p) {a : Acceptance}
    (ha : a ∈ (InvitingPlan.member p).acceptance?) :
    ∃ inv, db.invitations.get? body.invitationId = some inv ∧ inv.isPending now ∧
      a.invitationId = inv.id ∧
        ∀ user, p = .join user a → user.orgId = inv.orgId ∧ user.email = inv.email := by
  unfold acceptInvitation at h
  simp only [bind_eq_ok, ↓unit_bind_eq_ok, orRaise_eq_ok, raiseIf_eq_ok, not_not] at h
  obtain ⟨inv, hinv, -, hpending, h⟩ := h
  refine ⟨inv, hinv, hpending, ?_⟩
  cases hexisting : db.userByEmail? inv.email with
  | none =>
    rw [hexisting] at h
    simp only [acceptanceOf, ↓unit_bind_eq_ok, pure_eq_ok] at h
    obtain ⟨-, rfl⟩ := h
    obtain rfl := Option.some.inj ha
    refine ⟨rfl, fun user hjoin => ?_⟩
    obtain ⟨rfl, -⟩ := MemberPlan.join.inj hjoin
    exact ⟨rfl, rfl⟩
  | some existing =>
    rw [hexisting] at h
    simp only [acceptanceOf] at h
    split_ifs at h with hremoved
    obtain rfl := pure_eq_ok.mp h
    obtain rfl := Option.some.inj ha
    refine ⟨rfl, fun user hjoin => ?_⟩
    cases hjoin

/-- The other membership requests accept nothing. -/
theorem MemberRequest.acceptance?_of_check {r : MemberRequest} {p : MemberPlan}
    (h : r.check db = .ok p) (hr : r.invitationLocks = []) :
    (InvitingPlan.member p).acceptance? = none := by
  cases r with
  | remove actor id =>
    unfold check removeMember at h
    simp only [bind_eq_ok, ↓unit_bind_eq_ok, orRaise_eq_ok, raiseIf_eq_ok] at h
    obtain ⟨_, -, -, target, -, h⟩ := h
    split_ifs at h
    · obtain rfl := pure_eq_ok.mp h
      rfl
    · simp only [↓unit_bind_eq_ok, pure_eq_ok] at h
      obtain ⟨-, rfl⟩ := h
      rfl
  | update actor o id body =>
    unfold check updateMember at h
    simp only [bind_eq_ok, ↓unit_bind_eq_ok, orRaise_eq_ok, raiseIf_eq_ok, pure_eq_ok] at h
    obtain ⟨_, -, _, -, -, -, target, -, -, -, rfl⟩ := h
    split_ifs <;> rfl
  | merge actor source target =>
    unfold check mergeUsers planMerge at h
    simp only [bind_eq_ok, ↓unit_bind_eq_ok, orRaise_eq_ok, raiseIf_eq_ok, pure_eq_ok] at h
    obtain ⟨_, -, -, s, -, t, -, -, -, -, rfl⟩ := h
    rfl
  | accept body now => exact absurd hr (List.cons_ne_nil _ _)

/-- Whatever a membership request accepts is pending, it holds its lock, and whoever joins is the
one that it invites. -/
theorem MemberRequest.pending_of_check {r : MemberRequest} {p : MemberPlan}
    (h : r.check db = .ok p) {a : Acceptance} (ha : a ∈ (InvitingPlan.member p).acceptance?) :
    a.invitationId ∈ r.invitationLocks ∧
      ∃ inv, db.invitations.get? a.invitationId = some inv ∧ inv.acceptedAt = none ∧
        inv.revokedAt = none ∧
          ∀ user, p = .join user a → user.orgId = inv.orgId ∧ user.email = inv.email := by
  cases r with
  | accept body now =>
    obtain ⟨inv, hinv, hpending, hid, hjoin⟩ := acceptInvitation_acceptance h ha
    have hinvId : inv.id = body.invitationId := Table.get?_id hinv
    rw [hid, hinvId]
    exact ⟨List.mem_singleton_self _, inv, hinv, hpending.1, hpending.2.1, hjoin⟩
  | _ =>
    rw [MemberRequest.acceptance?_of_check h rfl] at ha
    cases ha

/-- A plan that neither accepts nor creates an invitation needs nothing. -/
theorem InvitingPlan.Ready.of_idle {own : List ℕ} {p : InvitingPlan} (hnone : p.acceptance? = none)
    (hcreate : ∀ now inv, p ≠ .create now inv) : p.Ready db own where
  pending a ha := by
    rw [hnone] at ha
    cases ha
  invited user a hjoin := by
    subst hjoin
    cases hnone
  created now inv hp := absurd hp (hcreate now inv)

theorem InvitingPlan.Ready.of_check [Casing] {r : InvitingRequest} {p : InvitingPlan}
    (h : r.check db = .ok p) : p.Ready db r.locks := by
  cases r with
  | member r =>
    obtain ⟨p, hp, rfl⟩ := map_eq_ok.mp h
    refine ⟨fun a ha => ?_, fun user a hjoin => ?_, fun _ _ hcreate => ?_⟩
    · obtain ⟨hlock, inv, hinv, haccepted, hrevoked, -⟩ := MemberRequest.pending_of_check hp ha
      exact ⟨hlock, inv, hinv, haccepted, hrevoked⟩
    · obtain rfl := InvitingPlan.member.inj hjoin
      obtain ⟨-, inv, hinv, -, -, hinvited⟩ := MemberRequest.pending_of_check hp (a := a) rfl
      exact ⟨inv, hinv, hinvited user rfl⟩
    · cases hcreate
  | create now actor email role =>
    unfold InvitingRequest.check planInvitation at h
    simp only [bind_eq_ok, ↓unit_bind_eq_ok, raiseIf_eq_ok, pure_eq_ok] at h
    obtain ⟨u, -, -, -, -, rfl⟩ := h
    refine ⟨fun a ha => ?_, fun user a hjoin => ?_, fun _ _ hcreate => ?_⟩
    · cases ha
    · cases hjoin
    · obtain ⟨-, rfl⟩ := InvitingPlan.create.inj hcreate
      exact ⟨rfl, rfl, rfl⟩
  | revoke now actor invitationId =>
    unfold InvitingRequest.check planRevocation at h
    simp only [bind_eq_ok, orRaise_eq_ok] at h
    obtain ⟨u, -, inv, -, h⟩ := h
    split_ifs at h <;> obtain rfl := pure_eq_ok.mp h <;>
      exact .of_idle rfl (by rintro _ _ ⟨⟩)

theorem InvitingPlan.Ready.commits {own locks revoked accepted : List ℕ} {p : InvitingPlan}
    {f : Invitation → Invitation} (h : p.Ready db own)
    (hcommits : Members.Commits locks revoked accepted db db' f)
    (hown : ∀ l ∈ locks, l ∉ own) : p.Ready db' own where
  pending a ha := by
    obtain ⟨hmem, inv, hinv, hpending⟩ := h.pending a ha
    exact ⟨hmem, inv, hcommits.get?_of_not_mem hinv fun hl => hown _ hl hmem, hpending⟩
  invited user a hp := by
    obtain ⟨inv, hinv, horg, hemail⟩ := h.invited user a hp
    have hevolves := hcommits.evolves inv (Table.get?_mem hinv)
    exact ⟨f inv, hcommits.get? hinv, horg.trans hevolves.orgId.symm,
      hemail.trans hevolves.email.symm⟩
  created := h.created

theorem writeUser_invitations {c : UserChange} (h : db.writeUser c = .ok db') :
    db'.invitations = db.invitations := by
  unfold Members.writeUser at h
  simp only [bind_eq_ok, orRaise_eq_ok, pure_eq_ok] at h
  obtain ⟨_, -, rfl⟩ := h
  rfl

theorem commits_markAccepted {a : Acceptance} {locks : List ℕ} (revoked : List ℕ)
    (h : markAccepted db a = .ok db')
    (hlock : a.invitationId ∈ locks)
    (hpending : ∃ inv, db.invitations.get? a.invitationId = some inv ∧ inv.acceptedAt = none ∧
      inv.revokedAt = none) :
    ∃ f, Members.Commits locks revoked [a.invitationId] db db' f := by
  obtain ⟨inv, hinv, haccepted, hrevoked⟩ := hpending
  unfold markAccepted at h
  simp only [bind_eq_ok, orRaise_eq_ok, pure_eq_ok] at h
  obtain ⟨_, -, rfl⟩ := h
  refine ⟨_, .of_modify (by exact fun _ => rfl) rfl hlock (fun _ _ => rfl) (fun _ => by simp)
    (fun _ => List.mem_singleton.mp) fun b hb => ?_⟩
  obtain rfl := Option.some.inj (hinv.symm.trans hb)
  exact ⟨rfl, rfl, rfl, rfl, fun h => absurd haccepted h, fun h => absurd hrevoked h,
    fun h => absurd hrevoked h, .inl rfl⟩

theorem insertUser_invitations {user : User} (h : insertUser db user = .ok db') :
    db'.invitations = db.invitations := by
  unfold insertUser at h
  obtain ⟨-, h⟩ := raiseIf_bind_eq_ok.mp h
  obtain rfl := pure_eq_ok.mp h
  rfl

theorem carryVerified_invitations {target : ℕ} {carried : Bool}
    (h : carryVerified db target carried = .ok db') : db'.invitations = db.invitations := by
  unfold carryVerified at h
  split_ifs at h
  · exact writeUser_invitations h
  · exact congrArg Members.invitations (pure_eq_ok.mp h).symm

theorem deleteUser_invitations {id : ℕ} (h : deleteUser db id = .ok db') :
    db'.invitations = db.invitations := by
  unfold deleteUser at h
  obtain ⟨-, h⟩ := raiseIf_bind_eq_ok.mp h
  obtain rfl := pure_eq_ok.mp h
  rfl

/-- A merge hands the invitations of the user that goes to the other one. -/
theorem commits_merge {source target : ℕ} {carried : Bool}
    (h : (MemberPlan.merge source target carried).write db = .ok db') :
    ∃ f, Members.Commits ((MemberPlan.merge source target carried).invitationLocks db) [] []
      db db' f := by
  obtain ⟨db₁, hreassign, h⟩ := bind_eq_ok.mp h
  obtain ⟨db₂, hcarry, hdelete⟩ := bind_eq_ok.mp h
  unfold reassignInvitations at hreassign
  obtain ⟨-, hreassign⟩ := raiseIf_bind_eq_ok.mp hreassign
  obtain rfl := pure_eq_ok.mp hreassign
  have htable := (deleteUser_invitations hdelete).trans (carryVerified_invitations hcarry)
  refine ⟨fun inv => if inv.createdBy = source then { inv with createdBy := target } else inv,
    fun inv => by split_ifs <;> rfl, fun a _ => ?_, fun a ha hlock => if_neg fun hsource => ?_,
    fun a _ _ => by split_ifs <;> rfl, fun a _ => by split_ifs <;> simp, .inl htable⟩
  · split_ifs
    · exact ⟨rfl, rfl, rfl, rfl, fun _ => rfl, fun h => h, fun _ => rfl, .inr ⟨rfl, rfl, rfl⟩⟩
    · exact .refl a
  · exact hlock (List.mem_map_of_mem (List.mem_filter.mpr ⟨ha, decide_eq_true hsource⟩))

/-- A creation closes the invitations that have expired, and adds one. -/
theorem commits_create {now : ℕ} {inv : Invitation}
    (hinv : inv.openEmail = some inv.email ∧ inv.acceptedAt = none ∧ inv.revokedAt = none)
    (h : (InvitingPlan.create now inv).write db = .ok db') :
    ∃ f, Members.Commits ((InvitingPlan.create now inv).locks db) [] [] db db' f := by
  unfold InvitingPlan.write insertInvitation at h
  obtain ⟨hfree, h⟩ := raiseIf_bind_eq_ok.mp h
  obtain rfl := pure_eq_ok.mp h
  refine ⟨fun i => if i.isStale now inv.orgId inv.email then { i with openEmail := none } else i,
    fun i => by split_ifs <;> rfl, fun a _ => ?_, fun a ha hlock => if_neg fun hstale => ?_,
    fun a _ _ => by split_ifs <;> rfl, fun a _ => by split_ifs <;> simp,
    .inr ⟨inv, rfl, hinv.1, hinv.2.1, hinv.2.2, fun a ha horg hopen => hfree (.inl ?_)⟩⟩
  · split_ifs
    · exact ⟨rfl, rfl, rfl, rfl, fun _ => rfl, fun h => h, fun _ => rfl, .inl rfl⟩
    · exact .refl a
  · exact hlock (List.mem_map_of_mem (List.mem_filter.mpr ⟨ha, decide_eq_true hstale⟩))
  · refine ⟨_, List.mem_map_of_mem ha, ?_, hopen⟩
    split_ifs <;> exact horg

theorem commits_revoke {now id : ℕ} (h : markRevoked now db id = .ok db') :
    ∃ f, Members.Commits [id] [id] [] db db' f := by
  unfold markRevoked at h
  obtain ⟨_, -, h⟩ := orRaise_bind_eq_ok.mp h
  obtain rfl := pure_eq_ok.mp h
  exact ⟨_, .of_modify (by exact fun _ => rfl) rfl (List.mem_singleton_self id)
    (fun h => absurd (List.mem_singleton_self id) h) (fun _ => by simp) nofun fun a _ =>
    ⟨rfl, rfl, rfl, rfl, fun _ => rfl, fun _ => nofun, fun _ => rfl, .inl rfl⟩⟩

/-- What a commit does to the invitations. -/
theorem InvitingPlan.commits_of_write {own : List ℕ} {p : InvitingPlan} (hready : p.Ready db own)
    (h : p.write db = .ok db') :
    ∃ f, Members.Commits (p.locks db) p.revoked (p.acceptance?.toList.map (·.invitationId))
      db db' f := by
  cases p with
  | member p =>
    cases p with
    | nothing => exact ⟨_, .of_eq (congrArg Members.invitations (pure_eq_ok.mp h).symm) _ _⟩
    | change c => exact ⟨_, .of_eq (writeUser_invitations h) _ _⟩
    | merge source target carried => exact commits_merge h
    | reactivate c a =>
      obtain ⟨written, hchange, hmark⟩ := bind_eq_ok.mp h
      have hsame := writeUser_invitations hchange
      have hpending := hsame ▸ (hready.pending a rfl).2
      obtain ⟨f, hf⟩ := commits_markAccepted [] hmark (List.mem_singleton_self _) hpending
      exact ⟨f, hf.of_same hsame⟩
    | join user a =>
      obtain ⟨joined, hinsert, hmark⟩ := bind_eq_ok.mp h
      have hsame := insertUser_invitations hinsert
      have hpending := hsame ▸ (hready.pending a rfl).2
      obtain ⟨f, hf⟩ := commits_markAccepted [] hmark (List.mem_singleton_self _) hpending
      exact ⟨f, hf.of_same hsame⟩
  | create now inv => exact commits_create (hready.created now inv rfl) h
  | revoke now id => exact commits_revoke h

/-! ### Runs -/

/-- A database with the requests that are under way. -/
abbrev InvitingState := Running (Locked Members ℕ) (Phase InvitingRequest (List ℕ × InvitingPlan))

/-- The state after a list of turns. -/
def invitingRun [Casing] (s : InvitingState) (ts : List (Turn InvitingRequest)) : InvitingState :=
  invitingSystem.sessions.interleave s ts

/-- The requests under way have the locks of their plans and know what these protect. -/
abbrev InvitingState.Ready (s : InvitingState) : Prop :=
  Locking.Protected (fun db own (p : InvitingPlan) => p.Ready db own) s

/-- What every commit keeps holds after every interleaving. -/
theorem invariant_of_invitingRun [Casing] {I : Members → Prop}
    (hcommit : ∀ db own p db', I db → InvitingPlan.Ready db own p → p.write db = .ok db' → I db')
    {s : InvitingState} (hs : I s.shared.state) (hlive : s.Ready)
    (ts : List (Turn InvitingRequest)) :
    I (invitingRun s ts).shared.state ∧ (invitingRun s ts).Ready := by
  have hts : invitingSystem.sessions.Respects (invitingSystem.OnCommit fun _ _ => True) s ts :=
    Sessions.respects_of_forall (fun _ p => by cases p <;> simp [Locking.OnCommit]) s ts
  refine Locking.interleave_protected (fun db r db' p h hcheck => ?_)
    (fun db own p db' h hready _ hwrite => ⟨hcommit db own p db' h hready hwrite, ?_⟩) ts hs
      hlive hts
  · obtain ⟨p', hp', heq⟩ := map_eq_ok.mp hcheck
    obtain ⟨rfl, rfl⟩ := Prod.mk.inj heq
    exact ⟨h, .of_check hp', fun _ _ h => h⟩
  · intro own' q hq hfree
    obtain ⟨f, hf⟩ := InvitingPlan.commits_of_write hready hwrite
    exact hq.commits hf hfree

theorem invitingRun_append [Casing] (s : InvitingState) (ts ts' : List (Turn InvitingRequest)) :
    invitingRun s (ts ++ ts') = invitingRun (invitingRun s ts) ts' :=
  Sessions.interleave_append s ts ts'

theorem ready_of_invitingRun [Casing] (db : Members) (ts : List (Turn InvitingRequest)) :
    (invitingRun (Locking.idle db) ts).Ready :=
  (invariant_of_invitingRun (I := fun _ => True) (fun _ _ _ _ _ _ _ => trivial)
    (s := Locking.idle db) trivial (Locking.protected_idle _ db) ts).2

/-- From every moment on, each invitation stays and evolves. -/
theorem invitationsEvolve_of_invitingRun [Casing] {s : InvitingState} (hlive : s.Ready)
    (ts : List (Turn InvitingRequest)) :
    s.shared.state.InvitationsEvolve (invitingRun s ts).shared.state :=
  (invariant_of_invitingRun (I := fun db => s.shared.state.InvitationsEvolve db)
    (fun _ _ _ _ h hready hwrite =>
      have ⟨_, hf⟩ := InvitingPlan.commits_of_write hready hwrite
      h.trans hf.invitationsEvolve) (.refl _) hlive ts).1

/-- After every interleaving of requests on invitations and members, an organisation has at most one
open invitation for an email, and what is open is neither accepted nor revoked; and from every
moment to every later one each invitation evolves: it is accepted at most once, and never after it
was revoked. -/
theorem invitations_of_interleaving [Casing] (db : Members) (h : db.InvitationsOk)
    (ts ts' : List (Turn InvitingRequest)) :
    let before := invitingRun (Locking.idle db) ts
    let after := invitingRun (Locking.idle db) (ts ++ ts')
    after.shared.state.InvitationsOk ∧
      before.shared.state.InvitationsEvolve after.shared.state := by
  refine ⟨?_, ?_⟩
  · exact (invariant_of_invitingRun (fun _ _ _ _ h hready hwrite =>
      have ⟨_, hf⟩ := InvitingPlan.commits_of_write hready hwrite
      h.commits hf) (s := Locking.idle db) h (Locking.protected_idle _ db) (ts ++ ts')).1
  · simp only [invitingRun_append]
    exact invitationsEvolve_of_invitingRun (ready_of_invitingRun db ts) ts'

/-! ### Acceptances -/

namespace Members

/-- The number of invitations that were accepted. -/
def acceptedCount (db : Members) : ℕ :=
  db.invitations.rows.countP (·.acceptedAt.isSome)

/-- Every user who was not there at the start has an accepted invitation. -/
def JoinedInvited (start : ℕ) (db : Members) : Prop :=
  ∀ u ∈ db.users.rows, start ≤ u.id → ∃ inv ∈ db.invitations.rows,
    inv.acceptedAt ≠ none ∧ inv.orgId = u.orgId ∧ inv.email = u.email

end Members

/-- The number of invitations that a plan accepts. -/
def InvitingPlan.acceptances (p : InvitingPlan) : ℕ := p.acceptance?.toList.length

/-- A commit accepts as many invitations as its plan says. -/
theorem InvitingPlan.acceptedCount_of_write {own : List ℕ} {p : InvitingPlan}
    (hready : p.Ready db own) (h : p.write db = .ok db') :
    db'.acceptedCount = db.acceptedCount + p.acceptances := by
  obtain ⟨f, hf⟩ := p.commits_of_write hready h
  have hmap : (db.invitations.mapRows f hf.id_eq).rows.countP (·.acceptedAt.isSome) =
      db.acceptedCount + p.acceptances := by
    have hcount : (db.invitations.mapRows f hf.id_eq).rows.countP (·.acceptedAt.isSome) =
        db.invitations.rows.countP fun a => a.acceptedAt.isSome ||
          decide (a.id ∈ p.acceptance?.toList.map (·.invitationId)) :=
      List.countP_map.trans
        (List.countP_congr fun a ha => by rw [Function.comp_apply, hf.accepts a ha])
    rw [hcount]
    unfold InvitingPlan.acceptances
    cases ha : p.acceptance? with
    | none => simp [Members.acceptedCount]
    | some a =>
      obtain ⟨-, inv, hinv, hnone, -⟩ := hready.pending a ha
      have hone := Table.countP_or_id (p := fun b : Invitation => b.acceptedAt.isSome) hinv
        (by rw [hnone]; rfl)
      simpa [Members.acceptedCount, Row.id] using hone
  rcases hf.table with htable | ⟨inv, htable, -, hnone, -⟩
  · rw [Members.acceptedCount, htable, hmap]
  · rw [Members.acceptedCount, htable]
    have hnew : (Row.withId (db.invitations.mapRows f hf.id_eq).next inv).acceptedAt = none := hnone
    show ((db.invitations.mapRows f hf.id_eq).rows ++ [_]).countP _ = _
    rw [List.countP_append, hmap, List.countP_singleton, hnew]
    rfl

theorem user_of_writeUser {c : UserChange} (h : db.writeUser c = .ok db') {u' : User}
    (hu' : u' ∈ db'.users.rows) :
    ∃ u ∈ db.users.rows, u.id = u'.id ∧ u.orgId = u'.orgId ∧ u.email = u'.email := by
  obtain ⟨_, -, h⟩ := orRaise_bind_eq_ok.mp h
  obtain rfl := pure_eq_ok.mp h
  obtain ⟨u, hu, rfl⟩ := List.mem_map.mp hu'
  refine ⟨u, hu, ?_⟩
  split_ifs <;> exact ⟨rfl, rfl, rfl⟩

theorem user_of_carryVerified {target : ℕ} {carried : Bool}
    (h : carryVerified db target carried = .ok db') {u' : User} (hu' : u' ∈ db'.users.rows) :
    ∃ u ∈ db.users.rows, u.id = u'.id ∧ u.orgId = u'.orgId ∧ u.email = u'.email := by
  unfold carryVerified at h
  split_ifs at h
  · exact user_of_writeUser h hu'
  · obtain rfl := pure_eq_ok.mp h
    exact ⟨u', hu', rfl, rfl, rfl⟩

/-- A user was there before, perhaps with another role or activity, or joins. -/
theorem InvitingPlan.user_of_write {p : InvitingPlan} (h : p.write db = .ok db') {u' : User}
    (hu' : u' ∈ db'.users.rows) :
    (∃ u ∈ db.users.rows, u.id = u'.id ∧ u.orgId = u'.orgId ∧ u.email = u'.email) ∨
      ∃ user a, p = .member (.join user a) ∧ user.orgId = u'.orgId ∧ user.email = u'.email := by
  cases p with
  | member p =>
    cases p with
    | nothing =>
      obtain rfl := pure_eq_ok.mp h
      exact .inl ⟨u', hu', rfl, rfl, rfl⟩
    | change c => exact .inl (user_of_writeUser h hu')
    | merge source target carried =>
      obtain ⟨db₁, hreassign, h⟩ := bind_eq_ok.mp h
      obtain ⟨db₂, hcarry, hdelete⟩ := bind_eq_ok.mp h
      obtain ⟨-, hdelete⟩ := raiseIf_bind_eq_ok.mp hdelete
      obtain rfl := pure_eq_ok.mp hdelete
      rw [← reassignInvitations_users hreassign]
      exact .inl (user_of_carryVerified hcarry (List.mem_of_mem_filter hu'))
    | reactivate c a =>
      obtain ⟨written, hchange, hmark⟩ := bind_eq_ok.mp h
      rw [markAccepted_users hmark] at hu'
      exact .inl (user_of_writeUser hchange hu')
    | join user a =>
      obtain ⟨joined, hinsert, hmark⟩ := bind_eq_ok.mp h
      rw [markAccepted_users hmark] at hu'
      obtain ⟨-, hinsert⟩ := raiseIf_bind_eq_ok.mp hinsert
      obtain rfl := pure_eq_ok.mp hinsert
      rcases Table.mem_insert.mp hu' with hu' | rfl
      · exact .inl ⟨u', hu', rfl, rfl, rfl⟩
      · exact .inr ⟨user, a, rfl, rfl, rfl⟩
  | create now inv =>
    obtain ⟨-, h⟩ := raiseIf_bind_eq_ok.mp h
    obtain rfl := pure_eq_ok.mp h
    exact .inl ⟨u', hu', rfl, rfl, rfl⟩
  | revoke now id =>
    obtain ⟨_, -, h⟩ := orRaise_bind_eq_ok.mp h
    obtain rfl := pure_eq_ok.mp h
    exact .inl ⟨u', hu', rfl, rfl, rfl⟩

/-- An acceptance that commits accepts one invitation that was not accepted before: after every
interleaving there are as many more accepted invitations as acceptances were committed. And every
user who has joined since the start has an accepted invitation to the organisation for the email. -/
theorem acceptances_of_interleaving [Casing] (db : Members) (ts : List (Turn InvitingRequest)) :
    let after := (invitingRun (Locking.idle db) ts).shared.state
    after.acceptedCount = db.acceptedCount +
        invitingSystem.sessions.weight (invitingSystem.committed fun _ p => p.acceptances)
          (Locking.idle db) ts ∧
      after.JoinedInvited db.users.next := by
  refine ⟨?_, ?_⟩
  · refine Locking.measure_interleave (μ := Members.acceptedCount) (fun db r db' p hcheck => ?_)
      (fun db own p db' hready hwrite => p.acceptedCount_of_write hready hwrite) ts
      (ready_of_invitingRun db)
    obtain ⟨_, -, heq⟩ := map_eq_ok.mp hcheck
    rw [(Prod.mk.inj heq).1]
  · refine (invariant_of_invitingRun (I := Members.JoinedInvited db.users.next)
      (fun db₁ own p db' h hready hwrite => ?_) (s := Locking.idle db)
      (fun u hu hnew => absurd (db.users.fresh u hu) (Nat.not_lt.mpr hnew))
      (Locking.protected_idle _ db) ts).1
    obtain ⟨f, hf⟩ := p.commits_of_write hready hwrite
    intro u' hu' hnew
    rcases p.user_of_write hwrite hu' with ⟨u, hu, hid, horg, hemail⟩ | ⟨user, a, hp, horg, hemail⟩
    · obtain ⟨inv, hinv, haccepted, hinvOrg, hinvEmail⟩ := h u hu (hid ▸ hnew)
      have hevolves := hf.evolves inv hinv
      refine ⟨f inv, Table.get?_mem (hf.get? (Table.get?_of_mem hinv)), ?_,
        hevolves.orgId.trans (hinvOrg.trans horg), hevolves.email.trans (hinvEmail.trans hemail)⟩
      rw [hevolves.accepted haccepted]
      exact haccepted
    · obtain ⟨inv, hinv, hinvOrg, hinvEmail⟩ := hready.invited user a hp
      have hevolves := hf.evolves inv (Table.get?_mem hinv)
      refine ⟨f inv, Table.get?_mem (hf.get? hinv), ?_,
        hevolves.orgId.trans (hinvOrg.symm.trans horg),
        hevolves.email.trans (hinvEmail.symm.trans hemail)⟩
      have hid : inv.id = a.invitationId := Table.get?_id hinv
      have haccepts := hf.accepts inv (Table.get?_mem hinv)
      rw [hp, hid] at haccepts
      intro hnone
      rw [hnone] at haccepts
      simp [InvitingPlan.acceptance?] at haccepts

/-! ### Accepted and revoked -/

/-- No invitation is both accepted and revoked. -/
def Members.Exclusive (db : Members) : Prop :=
  ∀ inv ∈ db.invitations.rows, inv.acceptedAt = none ∨ inv.revokedAt = none

/-- A revoke finds its invitation not accepted. -/
def InvitingPlan.RevokesUnaccepted (db : Members) (p : InvitingPlan) : Prop :=
  ∀ id ∈ p.revoked, ∀ inv ∈ db.invitations.get? id, inv.acceptedAt = none

instance (db : Members) (p : InvitingPlan) : Decidable (p.RevokesUnaccepted db) :=
  inferInstanceAs (Decidable (∀ id ∈ p.revoked, ∀ inv ∈ db.invitations.get? id, _))

/-- What is both accepted and revoked stays so. -/
theorem Members.InvitationsEvolve.exclusive_before (h : db.InvitationsEvolve db')
    (hex : db'.Exclusive) :
    db.Exclusive := by
  intro a ha
  obtain ⟨b, hb, hevolves⟩ := h a.id a (Table.get?_of_mem ha)
  rcases hex b (Table.get?_mem hb) with hnone | hnone
  · refine .inl (by_contra fun haccepted => haccepted ?_)
    rw [← hevolves.accepted haccepted, hnone]
  · exact .inr (by_contra fun hrevoked => hevolves.revoked hrevoked hnone)

/-- A commit leaves no invitation both accepted and revoked exactly when it does not revoke an
accepted one. -/
theorem InvitingPlan.exclusive_iff_of_write {own : List ℕ} {p : InvitingPlan}
    (hready : p.Ready db own) (hex : db.Exclusive) (h : p.write db = .ok db') :
    db'.Exclusive ↔ p.RevokesUnaccepted db := by
  constructor
  · intro hex' id hid inv hinv
    cases p with
    | revoke now invitationId =>
      obtain rfl := List.mem_singleton.mp hid
      obtain ⟨_, -, h⟩ := orRaise_bind_eq_ok.mp h
      obtain rfl := pure_eq_ok.mp h
      have hrow : (db.invitations.modify id
          (fun inv => { inv with revokedAt := some now, openEmail := none }) fun _ => rfl).get? id =
            some { inv with revokedAt := some now, openEmail := none } := by
        rw [Table.get?_modify, if_pos rfl, hinv]
        rfl
      exact (hex' _ (Table.get?_mem hrow)).resolve_right nofun
    | _ => cases hid
  · intro hok
    obtain ⟨f, hf⟩ := p.commits_of_write hready h
    have hrow : ∀ a ∈ db.invitations.rows, (f a).acceptedAt = none ∨ (f a).revokedAt = none := by
      intro a ha
      by_cases hid : a.id ∈ p.revoked
      · refine .inl ?_
        have hnone := hok a.id hid a (Table.get?_of_mem ha)
        have hplan : p.acceptance? = none := by
          cases p with
          | revoke now invitationId => rfl
          | _ => cases hid
        have haccepts := hf.accepts a ha
        rw [hplan, hnone] at haccepts
        exact Option.not_isSome_iff_eq_none.mp (by simpa using haccepts)
      · rw [hf.stamped a ha hid]
        rcases hex a ha with hnone | hnone
        · by_cases hrevoked : a.revokedAt = none
          · exact .inr hrevoked
          · exact .inl (((hf.evolves a ha).refused hrevoked).trans hnone)
        · exact .inr hnone
    rcases hf.table with htable | ⟨inv, htable, -, hnone, -⟩
    · intro b hb
      rw [htable] at hb
      obtain ⟨a, ha, rfl⟩ := List.mem_map.mp hb
      exact hrow a ha
    · intro b hb
      rw [htable] at hb
      rcases Table.mem_insert.mp hb with hb | rfl
      · obtain ⟨a, ha, rfl⟩ := List.mem_map.mp hb
        exact hrow a ha
      · exact .inl hnone

/-- A revoke fails when its invitation is gone. -/
theorem InvitingPlan.revokesUnaccepted_of_error {p : InvitingPlan} {e : ServiceError}
    (h : p.write db = .error e) : p.RevokesUnaccepted db := by
  intro id hid inv hinv
  cases p with
  | revoke now invitationId =>
    obtain rfl := List.mem_singleton.mp hid
    rw [write, markRevoked, show db.invitations.get? id = some inv from hinv] at h
    cases h
  | _ => cases hid

/-- One turn leaves no invitation both accepted and revoked exactly when it does not commit a revoke
of an accepted one. -/
theorem exclusive_iff_of_turn [Casing] {s : InvitingState} (hlive : s.Ready)
    (hex : s.shared.state.Exclusive) (t : Turn InvitingRequest) :
    (invitingSystem.sessions.turn s t).shared.state.Exclusive ↔
      Sessions.TurnOk (invitingSystem.OnCommit fun db p => p.RevokesUnaccepted db) s t := by
  cases t with
  | start r => exact iff_of_true hex trivial
  | advance k =>
    cases hk : s.live[k]? with
    | none => simpa [Sessions.turn, Sessions.TurnOk, hk] using hex
    | some p =>
      have hp := List.mem_of_getElem? hk
      simp only [Sessions.turn, Sessions.TurnOk, hk, Option.mem_some_iff, forall_eq']
      cases p with
      | checking r =>
        refine iff_of_true ?_ trivial
        simp only [Locking.sessions]
        split_ifs
        · exact hex
        · split
          · next db' q hcheck =>
            obtain ⟨_, -, heq⟩ := map_eq_ok.mp hcheck
            exact (Prod.mk.inj heq).1 ▸ hex
          · exact hex
      | committing plan =>
        obtain ⟨own, q⟩ := plan
        simp only [Locking.sessions]
        split_ifs with hblocked
        · exact iff_of_true hex fun hfree => absurd hblocked hfree
        · have hready := hlive.plan own q hp
          have hfree : (¬Locking.Blocked s.shared own (q.locks s.shared.state) →
              q.RevokesUnaccepted s.shared.state) ↔ q.RevokesUnaccepted s.shared.state :=
            forall_prop_of_true hblocked
          refine Iff.trans ?_ hfree.symm
          show (serve InvitingPlan.write s.shared.state q).Exclusive ↔ _
          cases hw : q.write s.shared.state with
          | ok db' =>
            rw [serve_of_ok hw]
            exact q.exclusive_iff_of_write hready hex hw
          | error e =>
            rw [serve_of_error hw]
            exact iff_of_true hex (q.revokesUnaccepted_of_error hw)

/-- When no invitation is both accepted and revoked at the start, none is after an interleaving
exactly when every revoke that commits finds its invitation not accepted. -/
theorem exclusive_iff_revokesUnaccepted [Casing] (db : Members) (h : db.Exclusive)
    (ts : List (Turn InvitingRequest)) :
    (invitingRun (Locking.idle db) ts).shared.state.Exclusive ↔
      invitingSystem.sessions.Respects (invitingSystem.OnCommit fun db p => p.RevokesUnaccepted db)
        (Locking.idle db) ts := by
  have hrun : ∀ ts (s : InvitingState), s.Ready → s.shared.state.Exclusive →
      ((invitingRun s ts).shared.state.Exclusive ↔ invitingSystem.sessions.Respects
        (invitingSystem.OnCommit fun db p => p.RevokesUnaccepted db) s ts) := by
    intro ts
    induction ts with
    | nil => exact fun s _ hex => iff_of_true hex trivial
    | cons t ts ih =>
      intro s hlive hex
      have hlive' : (invitingRun s [t]).Ready :=
        (invariant_of_invitingRun (I := fun _ => True) (fun _ _ _ _ _ _ _ => trivial) trivial
          hlive [t]).2
      constructor
      · intro hfinal
        have hnext : (invitingRun s [t]).shared.state.Exclusive :=
          (invitationsEvolve_of_invitingRun hlive' ts).exclusive_before hfinal
        exact ⟨(exclusive_iff_of_turn hlive hex t).mp hnext, (ih _ hlive' hnext).mp hfinal⟩
      · rintro ⟨hturn, hrest⟩
        exact (ih _ hlive' ((exclusive_iff_of_turn hlive hex t).mpr hturn)).mpr hrest
  exact hrun ts _ (Locking.protected_idle _ db) h

/-! ### A revoke that comes too late -/

attribute [local instance] asciiCasing

/-- An owner invites somebody, who accepts after the owner has read the invitation to revoke it and
before the revoke is committed. -/
def sampleLateRevoke : List (Turn InvitingRequest) :=
  [.start (.create 0 1 "dee@home" .member), .advance 0, .advance 0, .start (.revoke 5 1 1),
    .start (.member (.accept { invitationId := 1, email := "dee@home", username := "dee" } 6)),
    .advance 0, .advance 0, .advance 1, .advance 0]

theorem sampleLateRevoke_invitations :
    let before := invitingRun (Locking.idle sampleMembers) (sampleLateRevoke.take 7)
    let after := invitingRun (Locking.idle sampleMembers)
      (sampleLateRevoke.take 7 ++ sampleLateRevoke.drop 7)
    after.shared.state.InvitationsOk ∧ before.shared.state.InvitationsEvolve after.shared.state :=
  invitations_of_interleaving sampleMembers ⟨fun _ h => (nomatch h), fun _ h => nomatch h⟩ _ _

/-- The invitation was accepted and is stamped as revoked. -/
theorem sampleLateRevoke_not_exclusive :
    ¬(invitingRun (Locking.idle sampleMembers) sampleLateRevoke).shared.state.Exclusive :=
  (exclusive_iff_revokesUnaccepted sampleMembers (fun _ h => nomatch h) sampleLateRevoke).not.mpr
    (by decide +kernel)

end Pfv
