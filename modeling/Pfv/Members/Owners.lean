import Pfv.Base.Session
import Pfv.Services.Members

/-!
# The last active owner

Membership requests count the active owners of an organisation, and write afterwards; the only lock
between the two is the one on the row of an invitation. A request served alone keeps an active
owner. Requests that interleave can each count on the other's owner, and then together leave the
organisation without one. An owner stays when every commit that takes an active owner away finds
another one in the rows it commits to.

## Main definitions

* `memberSystem`: the requests in two steps, with the locks of the code.
* `HasOwner`: some user is an active owner of the organisation.
* `MemberPlan.Guarded`: the guard on the last owner, evaluated on the rows a plan is committed to.

## Main results

* `MemberPlan.guarded_of_check`: the checks of a request establish the guard of its plan.
* `MemberPlan.hasOwner_of_write`: a commit whose guard passes again keeps an active owner.
* `owner_of_interleaving`: an active owner after every interleaving of such commits.
-/

namespace Pfv

/-! ### The system -/

inductive MemberRequest
  | remove (actor targetUserId : ℕ)
  | update (actor org userId : ℕ) (body : MemberUpdate)
  | merge (actor sourceUserId targetUserId : ℕ)
  | accept (body : AcceptInvitation) (now : ℕ)

/-- The checks of a membership request. -/
def MemberRequest.check (db : Members) : MemberRequest → Except ServiceError MemberPlan
  | .remove actor targetUserId => removeMember db actor targetUserId
  | .update actor org userId body => updateMember db actor org userId body
  | .merge actor sourceUserId targetUserId => mergeUsers db actor sourceUserId targetUserId
  | .accept body now => acceptInvitation db body now

/-- The rows of invitations a request reads under a lock. -/
def MemberRequest.invitationLocks : MemberRequest → List ℕ
  | .accept body _ => [body.invitationId]
  | _ => []

/-- The rows of invitations a plan writes. -/
def MemberPlan.invitationLocks (db : Members) : MemberPlan → List ℕ
  | .nothing => []
  | .change _ => []
  | .merge source _ _ =>
      (db.invitations.rows.filter fun inv => inv.createdBy = source).map Invitation.id
  | .reactivate _ a => [a.invitationId]
  | .join _ a => [a.invitationId]

/-- The membership requests of all organisations. -/
def memberSystem : Locking Members MemberRequest MemberPlan ℕ ServiceError where
  check db r := (r.check db).map fun p => (db, p)
  commit := MemberPlan.write
  reads := MemberRequest.invitationLocks
  writes := MemberPlan.invitationLocks

/-! ### Active owners -/

/-- Some user is an active owner of the organisation. -/
def HasOwner (db : Members) (org : ℕ) : Prop :=
  ∃ u ∈ db.users.rows, u.isActiveOwner org

instance (db : Members) (org : ℕ) : Decidable (HasOwner db org) :=
  inferInstanceAs (Decidable (∃ u ∈ db.users.rows, u.isActiveOwner org))

/-- A change that takes an active owner away from the organisation finds another one. -/
def UserChange.Guarded (db : Members) (org : ℕ) (c : UserChange) : Prop :=
  ∀ u ∈ db.users.get? c.id, u.isActiveOwner org → ¬(c.apply u).isActiveOwner org →
    1 < db.activeOwners org

instance UserChange.decidableGuarded (db : Members) (org : ℕ) (c : UserChange) :
    Decidable (c.Guarded db org) :=
  inferInstanceAs (Decidable (∀ u ∈ db.users.get? c.id, _ → _ → _))

/-- The guard on the last active owner of the organisation, evaluated on the rows a plan is
committed to. -/
def MemberPlan.Guarded (org : ℕ) (db : Members) : MemberPlan → Prop
  | .nothing => True
  | .change c => c.Guarded db org
  | .merge source _ _ => ∀ u ∈ db.users.get? source, u.isActiveOwner org → 1 < db.activeOwners org
  | .reactivate c _ => c.Guarded db org
  | .join _ _ => True

instance MemberPlan.decidableGuarded (org : ℕ) (db : Members) :
    ∀ p : MemberPlan, Decidable (p.Guarded org db)
  | .nothing => .isTrue trivial
  | .change c => inferInstanceAs (Decidable (c.Guarded db org))
  | .merge source _ _ => inferInstanceAs (Decidable (∀ u ∈ db.users.get? source, _ → _))
  | .reactivate c _ => inferInstanceAs (Decidable (c.Guarded db org))
  | .join _ _ => .isTrue trivial

section

variable {db db' : Members} {org : ℕ}

theorem Members.member?_eq_some {id : ℕ} {u : User} :
    db.member? id org = some u ↔ db.users.get? id = some u ∧ u.orgId = org := by
  simp [Members.member?, Option.filter_eq_some_iff]

/-- Where two active owners are counted, one is left beside any user. -/
theorem Members.exists_other_owner (h : 1 < db.activeOwners org) (id : ℕ) :
    ∃ u ∈ db.users.rows, u.isActiveOwner org ∧ u.id ≠ id := by
  by_contra hnone
  simp only [not_exists, not_and, not_not] at hnone
  have hsub : ((db.users.rows.filter fun u => u.isActiveOwner org).map Row.id).Sublist
      (db.users.rows.map Row.id) := List.filter_sublist.map Row.id
  have hone : (db.users.rows.filter fun u => u.isActiveOwner org).map Row.id ⊆ [id] := by
    intro i hi
    obtain ⟨u, hu, rfl⟩ := List.mem_map.mp hi
    obtain ⟨hmem, howner⟩ := List.mem_filter.mp hu
    exact List.mem_singleton.mpr (hnone u hmem (of_decide_eq_true howner))
  have hle := (hsub.nodup db.users.nodup).subperm hone |>.length_le
  rw [List.length_map, List.length_singleton] at hle
  exact absurd h (not_lt.mpr hle)

/-- Another active owner than a counted one makes two. -/
theorem Members.one_lt_activeOwners {u v : User} (hu : u ∈ db.users.rows)
    (hv : v ∈ db.users.rows) (huo : u.isActiveOwner org) (hvo : v.isActiveOwner org)
    (hne : u.id ≠ v.id) : 1 < db.activeOwners org := by
  have hsub : [u, v].Subperm (db.users.rows.filter fun u => u.isActiveOwner org) := by
    refine List.Nodup.subperm ?_ fun w hw => ?_
    · rw [List.nodup_cons, List.mem_singleton]
      exact ⟨fun h => hne (congrArg User.id h), List.nodup_singleton v⟩
    · rcases List.mem_cons.mp hw with rfl | hw
      · exact List.mem_filter.mpr ⟨hu, decide_eq_true huo⟩
      · obtain rfl := List.mem_singleton.mp hw
        exact List.mem_filter.mpr ⟨hv, decide_eq_true hvo⟩
  exact hsub.length_le

/-! ### Commits -/

/-- The active owners stay when the users do. -/
theorem HasOwner.of_users (h : HasOwner db org) (husers : db'.users = db.users) :
    HasOwner db' org := by
  obtain ⟨u, hu, howner⟩ := h
  exact ⟨u, husers ▸ hu, howner⟩

/-- A change whose guard passes again keeps an active owner. -/
theorem UserChange.hasOwner_of_write {c : UserChange} (h : HasOwner db org)
    (hc : c.Guarded db org) (hwrite : db.writeUser c = .ok db') : HasOwner db' org := by
  unfold Members.writeUser at hwrite
  simp only [bind_eq_ok, orRaise_eq_ok, pure_eq_ok] at hwrite
  obtain ⟨v, hv, rfl⟩ := hwrite
  have hrow : ∀ u ∈ db.users.rows, (if u.id = c.id then c.apply u else u) ∈
      (db.users.modify c.id c.apply fun _ => rfl).rows := fun u hu => List.mem_map_of_mem hu
  obtain ⟨u, hu, howner⟩ := h
  by_cases hkept : u.id = c.id → (c.apply u).isActiveOwner org
  · refine ⟨_, hrow u hu, ?_⟩
    split_ifs with hid
    · exact hkept hid
    · exact howner
  · -- The owner at hand is the one that goes.
    obtain ⟨hid, hlost⟩ := Classical.not_imp.mp hkept
    have hget : db.users.get? c.id = some u := hid ▸ Table.get?_of_mem hu
    obtain ⟨w, hw, hwowner, hne⟩ := Members.exists_other_owner (hc u hget howner hlost) c.id
    refine ⟨_, hrow w hw, ?_⟩
    rwa [if_neg hne]

/-- Reassigning invitations leaves the users alone. -/
theorem reassignInvitations_users {source target : ℕ}
    (h : reassignInvitations db source target = .ok db') : db'.users = db.users := by
  unfold reassignInvitations at h
  simp only [↓unit_bind_eq_ok, raiseIf_eq_ok, pure_eq_ok] at h
  obtain ⟨-, rfl⟩ := h
  rfl

theorem markAccepted_users {a : Acceptance} (h : markAccepted db a = .ok db') :
    db'.users = db.users := by
  unfold markAccepted at h
  simp only [bind_eq_ok, orRaise_eq_ok, pure_eq_ok] at h
  obtain ⟨v, hv, rfl⟩ := h
  rfl

/-- Carrying the verified email over keeps every active owner. -/
theorem carryVerified_owner {target : ℕ} {carried : Bool}
    (h : carryVerified db target carried = .ok db') {u : User} (hu : u ∈ db.users.rows)
    (howner : u.isActiveOwner org) : ∃ v ∈ db'.users.rows, v.isActiveOwner org ∧ v.id = u.id := by
  unfold carryVerified at h
  split_ifs at h
  · unfold Members.writeUser at h
    simp only [bind_eq_ok, orRaise_eq_ok, pure_eq_ok] at h
    obtain ⟨w, hw, rfl⟩ := h
    refine ⟨_, List.mem_map_of_mem hu, ?_⟩
    split_ifs
    · exact ⟨howner, rfl⟩
    · exact ⟨howner, rfl⟩
  · rw [pure_eq_ok] at h
    subst h
    exact ⟨u, hu, howner, rfl⟩

/-- A merge that deletes an active owner only beside another one keeps an active owner. -/
theorem hasOwner_of_merge {source target : ℕ} {carried : Bool} (h : HasOwner db org)
    (hguard : (MemberPlan.merge source target carried).Guarded org db)
    (hwrite : (MemberPlan.merge source target carried).write db = .ok db') : HasOwner db' org := by
  unfold MemberPlan.write at hwrite
  simp only [bind_eq_ok] at hwrite
  obtain ⟨db₁, hreassign, db₂, hcarry, hdelete⟩ := hwrite
  unfold deleteUser at hdelete
  simp only [↓unit_bind_eq_ok, raiseIf_eq_ok, pure_eq_ok] at hdelete
  obtain ⟨-, rfl⟩ := hdelete
  obtain ⟨u, hu, howner, hne⟩ : ∃ u ∈ db.users.rows, u.isActiveOwner org ∧ u.id ≠ source := by
    obtain ⟨u, hu, howner⟩ := h
    by_cases hsource : u.id = source
    · have hget : db.users.get? source = some u := hsource ▸ Table.get?_of_mem hu
      exact Members.exists_other_owner (hguard u hget howner) source
    · exact ⟨u, hu, howner, hsource⟩
  rw [← reassignInvitations_users hreassign] at hu
  obtain ⟨v, hv, hvowner, hvu⟩ := carryVerified_owner hcarry hu howner
  exact ⟨v, List.mem_filter.mpr ⟨hv, decide_eq_true (hvu ▸ hne)⟩, hvowner⟩

/-- A new user takes no owner away. -/
theorem hasOwner_of_insertUser {user : User} (h : HasOwner db org)
    (hinsert : insertUser db user = .ok db') : HasOwner db' org := by
  unfold insertUser at hinsert
  simp only [↓unit_bind_eq_ok, raiseIf_eq_ok, pure_eq_ok] at hinsert
  obtain ⟨-, rfl⟩ := hinsert
  obtain ⟨u, hu, howner⟩ := h
  exact ⟨u, List.mem_append_left _ hu, howner⟩

/-- A commit whose guard passes again keeps an active owner. -/
theorem MemberPlan.hasOwner_of_write {p : MemberPlan} (h : HasOwner db org)
    (hguard : p.Guarded org db) (hwrite : p.write db = .ok db') : HasOwner db' org := by
  cases p with
  | nothing =>
    obtain rfl := pure_eq_ok.mp hwrite
    exact h
  | change c => exact UserChange.hasOwner_of_write h hguard hwrite
  | merge source target carried => exact hasOwner_of_merge h hguard hwrite
  | reactivate c a =>
    unfold write at hwrite
    rw [bind_eq_ok] at hwrite
    obtain ⟨written, hchange, hmark⟩ := hwrite
    exact (UserChange.hasOwner_of_write h hguard hchange).of_users (markAccepted_users hmark)
  | join user a =>
    unfold write at hwrite
    rw [bind_eq_ok] at hwrite
    obtain ⟨joined, hinsert, hmark⟩ := hwrite
    exact (hasOwner_of_insertUser h hinsert).of_users (markAccepted_users hmark)

/-! ### Checks -/

theorem removeMember_guarded {actor id : ℕ} {p : MemberPlan}
    (h : removeMember db actor id = .ok p) (org : ℕ) : p.Guarded org db := by
  unfold removeMember at h
  simp only [bind_eq_ok, ↓unit_bind_eq_ok, orRaise_eq_ok, raiseIf_eq_ok] at h
  obtain ⟨currentUser, -, -, target, htarget, h⟩ := h
  obtain ⟨hget, htorg⟩ := Members.member?_eq_some.mp htarget
  split_ifs at h with hactive
  · obtain rfl := pure_eq_ok.mp h
    trivial
  · simp only [↓unit_bind_eq_ok, pure_eq_ok] at h
    obtain ⟨hcheck, rfl⟩ := h
    rintro u hu ⟨huorg, hurole, -⟩ -
    have hid : target.id = id := Table.get?_id hget
    have hut : u = target := Option.some_inj.mp ((hid ▸ hu : db.users.get? id = some u) ▸ hget)
    subst hut
    unfold checkOwnerRemoval at hcheck
    simp only [hurole, if_true, ↓unit_bind_eq_ok, raiseIf_eq_ok, not_le] at hcheck
    rw [← huorg, htorg]
    exact hcheck.2

theorem updateMember_guarded {actor o id : ℕ} {body : MemberUpdate} {p : MemberPlan}
    (h : updateMember db actor o id body = .ok p) (org : ℕ) : p.Guarded org db := by
  unfold updateMember at h
  simp only [bind_eq_ok, ↓unit_bind_eq_ok, orRaise_eq_ok, raiseIf_eq_ok, pure_eq_ok] at h
  obtain ⟨_, -, _, -, -, -, target, htarget, -, hcheck, rfl⟩ := h
  obtain ⟨hget, htorg⟩ := Members.member?_eq_some.mp htarget
  split_ifs with hnothing
  · trivial
  · rintro u hu ⟨huorg, hurole, huactive⟩ hlost
    have hid : target.id = id := Table.get?_id hget
    have hut : u = target := Option.some_inj.mp ((hid ▸ hu : db.users.get? id = some u) ▸ hget)
    subst hut
    unfold checkLastOwner at hcheck
    simp only [raiseIf_eq_ok, hurole, huactive, not_and, not_le, true_and, and_true] at hcheck
    rw [← huorg, htorg]
    refine hcheck ?_
    -- The row stops being an active owner through its role or through its activity.
    by_contra hneither
    simp only [not_or, not_exists, not_and, not_not] at hneither
    obtain ⟨hactive', hrole'⟩ := hneither
    refine hlost ⟨huorg, ?_, ?_⟩
    · cases hrole : body.role with
      | none => simp [UserChange.apply, MemberUpdate.changeOf, hrole, hurole]
      | some r =>
        simp [UserChange.apply, MemberUpdate.changeOf, assigned, hrole, hurole,
          hrole' r (by simp [hrole])]
    · cases hact : body.isActive with
      | none => simp [UserChange.apply, MemberUpdate.changeOf, hact, huactive]
      | some b =>
        cases b with
        | false => exact absurd hact hactive'
        | true => simp [UserChange.apply, MemberUpdate.changeOf, assigned, hact, huactive]

theorem mergeUsers_guarded {actor source target : ℕ} {p : MemberPlan}
    (h : mergeUsers db actor source target = .ok p) (org : ℕ) : p.Guarded org db := by
  unfold mergeUsers planMerge at h
  simp only [bind_eq_ok, ↓unit_bind_eq_ok, orRaise_eq_ok, raiseIf_eq_ok, pure_eq_ok] at h
  obtain ⟨_, -, hne, s, hs, t, ht, -, -, hcheck, rfl⟩ := h
  rintro u hu ⟨huorg, hurole, huactive⟩
  obtain rfl : u = s := Option.some_inj.mp (hu.symm.trans hs)
  have hsid : u.id = source := Table.get?_id hs
  have htid : t.id = target := Table.get?_id ht
  unfold checkMergeKeepsOwner at hcheck
  simp only [raiseIf_eq_ok, hurole, huactive, true_and, not_and, not_not] at hcheck
  have hself : u.isActiveOwner org := ⟨huorg, hurole, huactive⟩
  -- Another owner is counted, or the target is one.
  by_cases hothers : (db.users.rows.filter fun v =>
      v.isActiveOwner u.orgId ∧ v.id ≠ u.id).length = 0
  · have htowner := hcheck hothers
    rw [huorg] at htowner
    exact Members.one_lt_activeOwners (Table.get?_mem hs) (Table.get?_mem ht) hself htowner
      (by rw [hsid, htid]; exact hne)
  · obtain ⟨v, hv⟩ := List.exists_mem_of_length_pos (Nat.pos_of_ne_zero hothers)
    obtain ⟨hmem, hvowner⟩ := List.mem_filter.mp hv
    obtain ⟨hvowner, hvne⟩ := of_decide_eq_true hvowner
    rw [huorg] at hvowner
    exact Members.one_lt_activeOwners (Table.get?_mem hs) hmem hself hvowner hvne.symm

theorem acceptInvitation_guarded {body : AcceptInvitation} {now : ℕ} {p : MemberPlan}
    (h : acceptInvitation db body now = .ok p) (org : ℕ) : p.Guarded org db := by
  unfold acceptInvitation at h
  simp only [bind_eq_ok, ↓unit_bind_eq_ok, orRaise_eq_ok, raiseIf_eq_ok] at h
  obtain ⟨inv, -, -, -, h⟩ := h
  cases hexisting : db.userByEmail? inv.email with
  | none =>
    rw [hexisting] at h
    simp only [acceptanceOf, ↓unit_bind_eq_ok, pure_eq_ok] at h
    obtain ⟨-, rfl⟩ := h
    trivial
  | some existing =>
    rw [hexisting] at h
    simp only [acceptanceOf] at h
    split_ifs at h with hremoved
    obtain rfl := pure_eq_ok.mp h
    -- A removed member is no active owner.
    rintro u hu ⟨-, -, huactive⟩ -
    have hget : db.users.get? existing.id = some existing :=
      Table.get?_of_mem (List.mem_of_find?_eq_some hexisting)
    obtain rfl : u = existing := Option.some_inj.mp (hu.symm.trans hget)
    exact absurd huactive (by simp [hremoved.2])

/-- The checks of a request establish the guard of its plan: a request served alone keeps an active
owner in every organisation that has one. -/
theorem MemberPlan.guarded_of_check {r : MemberRequest} {p : MemberPlan}
    (h : r.check db = .ok p) (org : ℕ) : p.Guarded org db := by
  cases r with
  | remove actor id => exact removeMember_guarded h org
  | update actor o id body => exact updateMember_guarded h org
  | merge actor source target => exact mergeUsers_guarded h org
  | accept body now => exact acceptInvitation_guarded h org

/-- Owners under concurrency: from every state in which the organisation has an active owner, after
every interleaving of the steps of any number of membership requests in which each commit that takes
an active owner away finds another one in the rows it commits to, it has one. -/
theorem owner_of_interleaving
    {s : Running (Locked Members ℕ) (Phase MemberRequest (List ℕ × MemberPlan))}
    (hs : HasOwner s.shared.state org) {ts : List (Turn MemberRequest)}
    (hts : memberSystem.sessions.Respects
      (memberSystem.OnCommit fun db p => p.Guarded org db) s ts) :
    HasOwner (memberSystem.sessions.interleave s ts).shared.state org := by
  refine Locking.interleave_invariant (I := fun db : Members => HasOwner db org)
    (fun db r db' p h hcheck => ?_) (fun db p db' h hguard hwrite => p.hasOwner_of_write h hguard
      hwrite) ts hs hts
  obtain ⟨p', -, heq⟩ := map_eq_ok.mp hcheck
  have hsame : db = db' := (Prod.ext_iff.mp heq).1
  exact hsame ▸ h

end

/-! ### Sample interleavings -/

/-- Organisation 1 with two owners, users 1 and 2, and an administrator, user 3. -/
def sampleMembers : Members where
  organizations := Table.empty.insert { name := "Home" }
  users := ((Table.empty.insert { orgId := 1, username := "ana", email := "ana@home" }).insert
    { orgId := 1, username := "bo", email := "bo@home" }).insert
    { orgId := 1, username := "cy", email := "cy@home", role := .admin }
  invitations := Table.empty
  importBatches := Table.empty

/-- Two requests are checked one after the other and then committed one after the other. -/
def sampleMemberTurns (r r' : MemberRequest) : List (Turn MemberRequest) :=
  [.start r, .start r', .advance 0, .advance 0, .advance 0, .advance 0]

/-- One owner removes the other while that one removes the administrator. -/
theorem owner_of_sampleMemberTurns :
    HasOwner (memberSystem.sessions.interleave ⟨⟨sampleMembers, []⟩, []⟩
      (sampleMemberTurns (.remove 1 2) (.remove 2 3))).shared.state 1 :=
  owner_of_interleaving (by decide +kernel) (by decide +kernel)

/-- Two owners who remove each other at once leave the organisation without an owner. -/
theorem not_owner_of_sampleMemberTurns :
    HasOwner sampleMembers 1 ∧
      ¬HasOwner (memberSystem.sessions.interleave ⟨⟨sampleMembers, []⟩, []⟩
        (sampleMemberTurns (.remove 1 2) (.remove 2 1))).shared.state 1 := by
  constructor
  · decide +kernel
  · decide +kernel

end Pfv
