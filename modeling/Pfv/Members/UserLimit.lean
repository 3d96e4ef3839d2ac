import Pfv.Base.Run
import Pfv.Services.Invitations
import Pfv.Services.Subscriptions

/-!
# The user limit of a plan

A plan bounds the active users of an organisation. `enforce_user_limit` compares the two, and
nothing calls it: an accepted invitation and a reactivation add a user to a full organisation. The
limit holds when the comparison is made before each of them.

## Main definitions

* `LimitRequest`: the requests on invitations and members.
* `WithinLimit`: the active users do not exceed the limit of the plan.
* `LimitRequest.Activates`: a request that makes a user active.

## Main results

* `withinLimit_of_run`: the limit holds in every run whose activating requests find room.
-/

namespace Pfv

/-! ### Runs -/

inductive LimitRequest
  | createInvitation (actor : ℕ) (email : String) (role : Role)
  | revokeInvitation (actor invitationId : ℕ)
  | acceptInvitation (body : AcceptInvitation)
  | removeMember (actor targetUserId : ℕ)
  | updateMember (actor org userId : ℕ) (body : MemberUpdate)

/-- The members after a request at a time: its checks, then its writes. -/
def LimitRequest.apply [Casing] (db : Members) : ℕ × LimitRequest → Except ServiceError Members
  | (now, .createInvitation actor email role) => Pfv.createInvitation now db actor email role
  | (now, .revokeInvitation actor invitationId) => Pfv.revokeInvitation now db actor invitationId
  | (now, .acceptInvitation body) => do
      let plan ← Pfv.acceptInvitation db body now
      plan.write db
  | (_, .removeMember actor targetUserId) => do
      let plan ← Pfv.removeMember db actor targetUserId
      plan.write db
  | (_, .updateMember actor org userId body) => do
      let plan ← Pfv.updateMember db actor org userId body
      plan.write db

/-- Serve a request. The plans and the subscriptions stay as they are. -/
def LimitRequest.step [Casing] (db : Platform) (e : ℕ × LimitRequest) :
    Except ServiceError Platform :=
  (LimitRequest.apply db.toMembers e).map fun members => { db with toMembers := members }

/-! ### The limit -/

/-- The active users of an organisation do not exceed the limit of its plan. -/
def WithinLimit (db : Platform) (org : ℕ) : Prop :=
  ∀ plan ∈ db.plan? org, ∀ m ∈ plan.maxUsers, db.activeUsers org ≤ m

instance (db : Platform) (org : ℕ) : Decidable (WithinLimit db org) :=
  inferInstanceAs (Decidable (∀ plan ∈ db.plan? org, ∀ m ∈ plan.maxUsers, _ ≤ m))

/-- The request makes a user of the organisation active: it accepts a pending invitation for a new
or a removed member, or sets an inactive member active. -/
def LimitRequest.Activates (db : Members) (org : ℕ) : ℕ × LimitRequest → Prop
  | (now, .acceptInvitation body) => ∃ inv ∈ db.invitations.get? body.invitationId,
      inv.orgId = org ∧ body.email = inv.email ∧ inv.isPending now ∧
        ∀ u ∈ db.userByEmail? inv.email, u.orgId = org ∧ u.isActive = false
  | (_, .updateMember _ o userId body) => o = org ∧ body.isActive = some true ∧
      ∃ u ∈ db.member? userId org, u.isActive = false
  | _ => False

instance (db : Members) (org : ℕ) :
    ∀ e : ℕ × LimitRequest, Decidable (LimitRequest.Activates db org e)
  | (_, .acceptInvitation body) => inferInstanceAs (Decidable
      (∃ inv ∈ db.invitations.get? body.invitationId, _ ∧ _ ∧ _ ∧
        ∀ u ∈ db.userByEmail? inv.email, _ ∧ _))
  | (_, .updateMember _ _ userId _) =>
      inferInstanceAs (Decidable (_ ∧ _ ∧ ∃ u ∈ db.member? userId org, _))
  | (_, .createInvitation _ _ _) => .isFalse id
  | (_, .revokeInvitation _ _) => .isFalse id
  | (_, .removeMember _ _) => .isFalse id

/-- A request that makes a user active finds room. -/
def FindsRoom (org : ℕ) (db : Platform) (e : ℕ × LimitRequest) : Prop :=
  LimitRequest.Activates db.toMembers org e → db.HasRoom org

instance (org : ℕ) (db : Platform) (e : ℕ × LimitRequest) : Decidable (FindsRoom org db e) :=
  inferInstanceAs (Decidable (_ → _))

section

variable {db db' : Members} {now org : ℕ}

/-! ### Counting active users -/

/-- Changing one row counts at most one row more. -/
theorem countP_modify_le {α : Type} [Row α] (t : Table α) (i : ℕ) (f : α → α) (hf) (p : α → Bool) :
    (t.modify i f hf).rows.countP p ≤ t.rows.countP p + 1 := by
  have hone : t.rows.countP (fun a => Row.id a = i) ≤ 1 := by
    have hcount := List.nodup_iff_count_le_one.mp t.nodup i
    rw [List.count, List.countP_map] at hcount
    exact (List.countP_congr fun a _ => by simp).trans_le hcount
  have hrows : (t.modify i f hf).rows.countP p =
      t.rows.countP (p ∘ fun a => if Row.id a = i then f a else a) := List.countP_map
  rw [hrows]
  calc t.rows.countP (p ∘ fun a => if Row.id a = i then f a else a)
      ≤ t.rows.countP (fun a => p a || decide (Row.id a = i)) := by
        refine List.countP_mono_left fun a _ ha => ?_
        by_cases hid : Row.id a = i
        · simp [hid]
        · simpa [hid] using ha
    _ ≤ t.rows.countP p + t.rows.countP (fun a => Row.id a = i) := by
        induction t.rows with
        | nil => simp
        | cons a l ih =>
          simp only [List.countP_cons]
          by_cases hp : p a = true
          · simp [hp]
            omega
          · by_cases hid : Row.id a = i
            · simp [hid, hp]
              omega
            · simp [hid, hp]
              omega
    _ ≤ t.rows.countP p + 1 := by omega

/-- Changing one row counts no row more when it counted before. -/
theorem countP_modify_le_of {α : Type} [Row α] (t : Table α) {i : ℕ} (f : α → α) (hf) {p : α → Bool}
    (h : ∀ a, t.get? i = some a → p (f a) = true → p a = true) :
    (t.modify i f hf).rows.countP p ≤ t.rows.countP p := by
  have hrows : (t.modify i f hf).rows.countP p =
      t.rows.countP (p ∘ fun a => if Row.id a = i then f a else a) := List.countP_map
  rw [hrows]
  refine List.countP_mono_left fun a hmem ha => ?_
  by_cases hid : Row.id a = i
  · refine h a (hid ▸ Table.get?_of_mem hmem) ?_
    simpa [hid] using ha
  · simpa [hid] using ha

theorem writeUser_activeUsers_le {c : UserChange} (h : db.writeUser c = .ok db') :
    db'.activeUsers org ≤ db.activeUsers org + 1 := by
  unfold Members.writeUser at h
  simp only [bind_eq_ok, orRaise_eq_ok, pure_eq_ok] at h
  obtain ⟨u, -, rfl⟩ := h
  exact countP_modify_le db.users c.id c.apply (fun _ => rfl) _

/-- A change adds no active user when it activates no inactive one. -/
theorem writeUser_activeUsers_le_of {c : UserChange} (h : db.writeUser c = .ok db')
    (hc : c.isActive = some true → ∀ u, db.users.get? c.id = some u → u.orgId = org →
      u.isActive = true) :
    db'.activeUsers org ≤ db.activeUsers org := by
  unfold Members.writeUser at h
  simp only [bind_eq_ok, orRaise_eq_ok, pure_eq_ok] at h
  obtain ⟨u, -, rfl⟩ := h
  refine countP_modify_le_of db.users c.apply (fun _ => rfl) fun a ha hactive => ?_
  obtain ⟨horg, hvalue⟩ : a.orgId = org ∧ c.isActive.getD a.isActive = true :=
    of_decide_eq_true hactive
  refine decide_eq_true ⟨horg, ?_⟩
  cases hchange : c.isActive with
  | none =>
    rw [hchange] at hvalue
    exact hvalue
  | some b =>
    rw [hchange] at hvalue
    obtain rfl : b = true := hvalue
    exact hc hchange a ha horg

theorem markAccepted_activeUsers {a : Acceptance} (h : markAccepted db a = .ok db') :
    db'.activeUsers org = db.activeUsers org := by
  unfold markAccepted at h
  simp only [bind_eq_ok, orRaise_eq_ok, pure_eq_ok] at h
  obtain ⟨inv, -, rfl⟩ := h
  rfl

theorem insertUser_activeUsers {user : User} (h : insertUser db user = .ok db') :
    db'.activeUsers org ≤ db.activeUsers org + if user.orgId = org then 1 else 0 := by
  unfold insertUser at h
  rw [raiseIf_bind_eq_ok, pure_eq_ok] at h
  obtain ⟨-, rfl⟩ := h
  have hrows : (db.users.insert user).rows = db.users.rows ++ [Row.withId db.users.next user] := rfl
  show List.countP _ (db.users.insert user).rows ≤ _
  rw [hrows, List.countP_append, List.countP_singleton]
  have horg : (Row.withId db.users.next user).orgId = user.orgId := rfl
  by_cases h : user.orgId = org
  · rw [if_pos h]
    exact Nat.add_le_add_left (by split_ifs <;> omega) _
  · rw [if_neg h, if_neg (by simp [horg, h])]
    exact le_rfl

/-! ### The requests -/

theorem createInvitation_activeUsers [Casing] {actor : ℕ} {email : String} {role : Role}
    (h : createInvitation now db actor email role = .ok db') :
    db'.activeUsers org = db.activeUsers org := by
  unfold createInvitation at h
  simp only [bind_eq_ok, ↓unit_bind_eq_ok, pure_eq_ok] at h
  obtain ⟨_, -, -, -, -, rfl⟩ := h
  rfl

theorem revokeInvitation_activeUsers {actor invitationId : ℕ}
    (h : revokeInvitation now db actor invitationId = .ok db') :
    db'.activeUsers org = db.activeUsers org := by
  unfold revokeInvitation at h
  simp only [bind_eq_ok, orRaise_eq_ok] at h
  obtain ⟨_, -, _, -, h⟩ := h
  split_ifs at h
  all_goals
    rw [pure_eq_ok] at h
    subst h
    rfl

theorem removeMember_activeUsers {actor targetUserId : ℕ} {plan : MemberPlan}
    (hplan : removeMember db actor targetUserId = .ok plan) (h : plan.write db = .ok db') :
    db'.activeUsers org ≤ db.activeUsers org := by
  unfold removeMember at hplan
  simp only [bind_eq_ok, ↓unit_bind_eq_ok, orRaise_eq_ok] at hplan
  obtain ⟨_, -, -, target, -, hplan⟩ := hplan
  split_ifs at hplan
  · obtain rfl := pure_eq_ok.mp hplan
    obtain rfl := pure_eq_ok.mp h
    exact le_rfl
  · rw [unit_bind_eq_ok, pure_eq_ok] at hplan
    obtain ⟨-, rfl⟩ := hplan
    exact writeUser_activeUsers_le_of h fun hactive => absurd hactive (by simp)

/-- An update adds an active user only when it activates an inactive member. -/
theorem updateMember_activeUsers {actor o userId : ℕ} {body : MemberUpdate} {plan : MemberPlan}
    (hplan : updateMember db actor o userId body = .ok plan) (h : plan.write db = .ok db') :
    db'.activeUsers org ≤ db.activeUsers org ∨
      db'.activeUsers org ≤ db.activeUsers org + 1 ∧
        LimitRequest.Activates db org (now, .updateMember actor o userId body) := by
  unfold updateMember at hplan
  simp only [bind_eq_ok, ↓unit_bind_eq_ok, orRaise_eq_ok, pure_eq_ok] at hplan
  obtain ⟨_, -, _, -, -, -, target, htarget, -, -, rfl⟩ := hplan
  split_ifs at h with hnone
  · obtain rfl := pure_eq_ok.mp h
    exact .inl le_rfl
  · obtain ⟨hget, horg⟩ := Option.filter_eq_some_iff.mp htarget
    by_cases hactivates : LimitRequest.Activates db org (now, .updateMember actor o userId body)
    · exact .inr ⟨writeUser_activeUsers_le h, hactivates⟩
    · refine .inl (writeUser_activeUsers_le_of h fun hactive u hu huorg => ?_)
      by_contra hinactive
      have hid : target.id = userId := Table.get?_id hget
      obtain rfl : u = target := by
        rw [show (body.changeOf target).id = userId from hid, hget] at hu
        exact (Option.some_inj.mp hu).symm
      have ho : o = org := (of_decide_eq_true horg).symm.trans huorg
      refine hactivates ⟨ho, ?_, u, ho ▸ htarget, by simpa using hinactive⟩
      obtain ⟨b, hb, hassigned⟩ := Option.bind_eq_some_iff.mp hactive
      unfold assigned at hassigned
      split_ifs at hassigned
      rw [hb, Option.some_inj.mp hassigned]

/-- An accepted invitation adds at most one active user, in its organisation. -/
theorem acceptInvitation_activeUsers {body : AcceptInvitation} {plan : MemberPlan}
    (hplan : acceptInvitation db body now = .ok plan) (h : plan.write db = .ok db') :
    db'.activeUsers org ≤ db.activeUsers org ∨
      db'.activeUsers org ≤ db.activeUsers org + 1 ∧
        LimitRequest.Activates db org (now, .acceptInvitation body) := by
  unfold acceptInvitation at hplan
  simp only [bind_eq_ok, ↓raiseIf_bind_eq_ok, orRaise_eq_ok, not_not] at hplan
  obtain ⟨inv, hinv, hemail, hpending, hplan⟩ := hplan
  cases hexisting : db.userByEmail? inv.email with
  | some existing =>
    rw [hexisting] at hplan
    unfold acceptanceOf at hplan
    dsimp only at hplan
    split_ifs at hplan with hremoved
    obtain rfl := pure_eq_ok.mp hplan
    obtain ⟨written, hwritten, hmarked⟩ := bind_eq_ok.mp h
    rw [markAccepted_activeUsers hmarked]
    by_cases horg : inv.orgId = org
    · refine .inr ⟨writeUser_activeUsers_le hwritten, inv, hinv, horg, hemail, hpending,
        fun u hu => ?_⟩
      obtain rfl : existing = u := Option.some_inj.mp (hexisting.symm.trans hu)
      exact ⟨hremoved.1.trans horg, hremoved.2⟩
    · refine .inl (writeUser_activeUsers_le_of hwritten fun _ u hu huorg => ?_)
      have hself : db.users.get? existing.id = some existing :=
        Table.get?_of_mem (List.mem_of_find?_eq_some hexisting)
      obtain rfl : existing = u := Option.some_inj.mp (hself.symm.trans hu)
      exact absurd (hremoved.1.symm.trans huorg) horg
  | none =>
    rw [hexisting] at hplan
    unfold acceptanceOf at hplan
    dsimp only at hplan
    rw [unit_bind_eq_ok, pure_eq_ok] at hplan
    obtain ⟨-, rfl⟩ := hplan
    obtain ⟨joined, hjoined, hmarked⟩ := bind_eq_ok.mp h
    rw [markAccepted_activeUsers hmarked]
    have hle := @insertUser_activeUsers db joined org _ hjoined
    by_cases horg : inv.orgId = org
    · rw [if_pos horg] at hle
      refine .inr ⟨hle, inv, hinv, horg, hemail, hpending, fun u hu => ?_⟩
      rw [hexisting] at hu
      exact absurd hu (by simp)
    · rw [if_neg horg] at hle
      exact .inl hle

/-- A request adds an active user only when it activates one. -/
theorem LimitRequest.apply_activeUsers [Casing] {e : ℕ × LimitRequest}
    (h : LimitRequest.apply db e = .ok db') :
    db'.activeUsers org ≤ db.activeUsers org ∨
      db'.activeUsers org ≤ db.activeUsers org + 1 ∧ LimitRequest.Activates db org e := by
  obtain ⟨now, r⟩ := e
  cases r with
  | createInvitation actor email role => exact .inl (createInvitation_activeUsers h).le
  | revokeInvitation actor invitationId => exact .inl (revokeInvitation_activeUsers h).le
  | acceptInvitation body =>
    obtain ⟨plan, hplan, hwrite⟩ := bind_eq_ok.mp h
    exact acceptInvitation_activeUsers hplan hwrite
  | removeMember actor targetUserId =>
    obtain ⟨plan, hplan, hwrite⟩ := bind_eq_ok.mp h
    exact .inl (removeMember_activeUsers hplan hwrite)
  | updateMember actor o userId body =>
    obtain ⟨plan, hplan, hwrite⟩ := bind_eq_ok.mp h
    exact updateMember_activeUsers hplan hwrite

end

/-! ### Runs within the limit -/

/-- A request that finds room for the user it activates keeps the limit. -/
theorem LimitRequest.step_withinLimit [Casing] {db db' : Platform} {org : ℕ} {e : ℕ × LimitRequest}
    (h : WithinLimit db org) (hroom : FindsRoom org db e) (hok : LimitRequest.step db e = .ok db') :
    WithinLimit db' org := by
  obtain ⟨members, hmembers, rfl⟩ := map_eq_ok.mp hok
  intro plan hplan m hm
  show members.activeUsers org ≤ m
  rcases @LimitRequest.apply_activeUsers _ _ org _ _ hmembers with hle | ⟨hle, hactivates⟩
  · exact hle.trans (h plan hplan m hm)
  · exact hle.trans (hroom hactivates plan hplan m hm)

/-- The active users of an organisation never exceed the limit of its plan in a run in which every
request that makes a user active finds room. -/
theorem withinLimit_of_run [Casing] {db : Platform} {org : ℕ} {events : List (ℕ × LimitRequest)}
    (h : WithinLimit db org) (hroom : Admits (FindsRoom org) LimitRequest.step db events) :
    WithinLimit (serveAll LimitRequest.step db events) org :=
  serveAll_invariant (fun _ _ _ hw hr hok => LimitRequest.step_withinLimit hw hr hok) events h hroom

/-! ### Sample runs -/

attribute [local instance] asciiCasing

/-- An owner whose plan admits a number of users. -/
def sampleHousehold (maxUsers : ℕ) : Platform where
  organizations := Table.empty.insert { name := "Casa" }
  users := Table.empty.insert { orgId := 1, username := "ana", email := "ana@casa" }
  invitations := .empty
  importBatches := .empty
  plans := Table.empty.insert { name := "Free", slug := "free", maxUsers := some maxUsers }
  subscriptions := Table.empty.insert { orgId := 1, planId := 1, status := .active }
  overrides := .empty

/-- The owner invites a member, who accepts. -/
def sampleInvited : List (ℕ × LimitRequest) :=
  [(0, .createInvitation 1 "rui@casa" .member), (60, .acceptInvitation ⟨1, "rui@casa", "rui"⟩)]

/-- A plan for two has room for the member. -/
theorem withinLimit_of_sampleInvited :
    WithinLimit (serveAll LimitRequest.step (sampleHousehold 2) sampleInvited) 1 :=
  withinLimit_of_run (by decide +kernel) (by decide +kernel)

/-- On a plan for one, the member joins all the same, and the comparison that would refuse it
fails. -/
theorem not_withinLimit_of_sampleInvited :
    WithinLimit (sampleHousehold 1) 1 ∧ (enforceUserLimit (sampleHousehold 1) 1).isOk = false ∧
      ¬WithinLimit (serveAll LimitRequest.step (sampleHousehold 1) sampleInvited) 1 := by
  refine ⟨by decide +kernel, by decide +kernel, by decide +kernel⟩

end Pfv
