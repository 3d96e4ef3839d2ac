import Pfv.Tenancy.Merge

/-!
# Hard delete of a user

The delete of a user by a superadmin (`backend/app/services/admin_users_service.py`). Seven tables
refer to users, and two of them refuse the delete. Their rows are deleted by hand; the database then
releases the locks that the user holds and clears the references that may be null. The
deleted import batches are referred to as well, by transactions that stay.

## Main definitions

* `deleteUser`: the delete, with what it reports.
* `withoutUser`: the tables without a user.

## Main results

* `deleteUser_of_deletable`: the delete succeeds whenever its guards pass, and leaves the tables
  without the user.
* `deleteUser_exact`: so exactly; it breaks no reference and no organisation loses an active owner.
-/

namespace Pfv

/-- What a hard delete raises. A conflict has a code that the client branches on. -/
inductive DeleteUserError
  | notFound (resource : String)
  | conflict (detail code : String)
  | integrity
  deriving DecidableEq

def codeUserIsSuperadmin : String := "user_is_superadmin"

def codeUserStillActive : String := "user_still_active"

def codeUserIsSelf : String := "user_is_self"

/-- The fields of a user that are kept for the audit log. -/
structure UserSnapshot where
  id : ℕ
  email : String
  username : String
  orgId : ℕ
  isActive : Bool
  isSuperadmin : Bool
  deriving DecidableEq

/-- The report of a hard delete, with the numbers of invitations and import batches that were
deleted. -/
structure DeletedUser where
  snapshot : UserSnapshot
  invitations : ℕ
  importBatches : ℕ
  deriving DecidableEq

def User.snapshot (u : User) : UserSnapshot where
  id := u.id
  email := u.email
  username := u.username
  orgId := u.orgId
  isActive := u.isActive
  isSuperadmin := u.isSuperadmin

namespace Tenancy

/-- The invitations that a user has issued. -/
def issuedBy (u : ℕ) (v : Invitation) : Bool := v.createdBy = u

/-- The import batches that a user has created. -/
def importedBy (u : ℕ) (b : ImportBatch) : Bool := b.createdByUserId = u

def hasId (u : ℕ) (r : User) : Bool := r.id = u

/-- `delete_user`. -/
def deleteUser (db : Tenancy) (targetUserId actorUserId : ℕ) :
    Except DeleteUserError (Tenancy × DeletedUser) := do
  let target : User ← orRaise ((db .users).get? targetUserId) (.notFound s!"User {targetUserId}")
  raiseIf (target.id = actorUserId)
    (.conflict "You cannot delete your own user via this endpoint" codeUserIsSelf)
  raiseIf (target.isSuperadmin = true)
    (.conflict "Cannot delete a platform superadmin via this endpoint" codeUserIsSuperadmin)
  raiseIf (target.isActive = true)
    (.conflict ("Target user must be deactivated before deletion. " ++
      "Deactivate them first via the org members page.") codeUserStillActive)
  let uninvited ← Schema.delete .integrity db (Schema.onTable .invitations (issuedBy targetUserId))
  let unimported ← Schema.delete .integrity uninvited
    (Schema.onTable .importBatches (importedBy targetUserId))
  let deleted ← Schema.delete .integrity unimported (Schema.onTable .users (hasId targetUserId))
  pure (deleted,
    { snapshot := target.snapshot
      invitations := ((db .invitations).rows.filter (issuedBy targetUserId)).length
      importBatches := ((uninvited .importBatches).rows.filter (importedBy targetUserId)).length })

/-! ### What a hard delete is for -/

/-- The tables without a user: its row, the invitations it has issued, the import batches it has
created and the locks it holds are gone; transactions stay without their batch, and settings, audit
events, feedback and tags without their author. -/
def withoutUser (db : Tenancy) (u : ℕ) : Tenancy
  | .users => (db .users).filter fun r => !hasId u r
  | .invitations => (db .invitations).filter fun v => !issuedBy u v
  | .importBatches => (db .importBatches).filter fun b => !importedBy u b
  | .orgDataResetLocks => (db .orgDataResetLocks).filter fun l : OrgDataResetLock =>
      !decide (l.acquiredByUserId = u)
  | .transactions => (db .transactions).mapRows (fun t : Transaction =>
      if t.importBatchId.any fun b => ((db .importBatches).get? b).any (importedBy u) then
        { t with importBatchId := none } else t) fun t => by split_ifs <;> rfl
  | .orgFeatureOverrides => (db .orgFeatureOverrides).mapRows (fun o : OrgFeatureOverride =>
      if o.setBy = some u then { o with setBy := none } else o) fun o => by split_ifs <;> rfl
  | .auditEvents => (db .auditEvents).mapRows (fun e : AuditEvent =>
      if e.actorUserId = some u then { e with actorUserId := none } else e) fun e => by
        split_ifs <;> rfl
  | .feedbackEntries => (db .feedbackEntries).mapRows (fun f : FeedbackEntry =>
      if f.userId = some u then { f with userId := none } else f) fun f => by split_ifs <;> rfl
  | .tags => (db .tags).mapRows (fun g : Tag =>
      if g.createdByUserId = some u then { g with createdByUserId := none } else g)
        fun g => by split_ifs <;> rfl
  | t => db t

/-! ### The three deletes -/

variable {db db' : Tenancy} {u actor : ℕ} {report : DeletedUser}

theorem shallow_invitations : tenancy.Shallow .invitations := by decide

theorem shallow_importBatches : tenancy.Shallow .importBatches := by decide

theorem shallow_users : tenancy.Shallow .users := by decide

/-- The tables without some invitations. -/
def withoutInvitations (db : Tenancy) (p : Invitation → Bool) : Tenancy
  | .invitations => (db .invitations).filter fun v => !p v
  | t => db t

/-- Nothing refers to an invitation. -/
theorem delete_invitations (db : Tenancy) (p : Invitation → Bool) :
    Schema.delete DeleteUserError.integrity db (Schema.onTable .invitations p) =
      .ok (db.withoutInvitations p) := by
  refine Schema.delete_eq_ok.mpr ⟨?_, ?_⟩
  · rw [shallow_invitations.restricted_iff]
    rintro ⟨fk, hfk, -, hparent, -⟩
    exact (by decide : ∀ fk ∈ foreignKeys, fk.parent ≠ .invitations) fk hfk hparent
  · funext t
    cases t
    case invitations => exact shallow_invitations.deleted_self (by decide)
    all_goals exact shallow_invitations.deleted_of_restrict (by decide) (by decide) (by decide)

/-- The tables without some import batches. -/
def withoutImportBatches (db : Tenancy) (p : ImportBatch → Bool) : Tenancy
  | .importBatches => (db .importBatches).filter fun b => !p b
  | .transactions => (db .transactions).mapRows (fun t : Transaction =>
      if t.importBatchId.any fun b => ((db .importBatches).get? b).any p then
        { t with importBatchId := none } else t) fun t => by split_ifs <;> rfl
  | t => db t

/-- The transactions of an import batch stay without it. -/
theorem delete_importBatches (db : Tenancy) (p : ImportBatch → Bool) :
    Schema.delete DeleteUserError.integrity db (Schema.onTable .importBatches p) =
      .ok (db.withoutImportBatches p) := by
  refine Schema.delete_eq_ok.mpr ⟨?_, ?_⟩
  · rw [shallow_importBatches.restricted_iff]
    rintro ⟨fk, hfk, hkind, hparent, -⟩
    exact (by decide : ∀ fk ∈ foreignKeys, fk.onDelete = .restrict → fk.parent ≠ .importBatches)
      fk hfk hkind hparent
  · funext t
    cases t
    case importBatches => exact shallow_importBatches.deleted_self (by decide)
    case transactions =>
      refine shallow_importBatches.deleted_of_setNull (by decide) (by decide)
        (show _ = [⟨.transactions, .importBatchId, .importBatches, .setNull⟩] by decide) rfl
        (fun _ => by split_ifs <;> rfl) fun t => ?_
      simp only [Schema.points, Schema.onTable_self]
      rfl
    all_goals exact shallow_importBatches.deleted_of_restrict (by decide) (by decide) (by decide)

/-- The tables without the row of a user and what the database clears with it. -/
def withoutUserRow (db : Tenancy) (u : ℕ) : Tenancy
  | .users => (db .users).filter fun r => !hasId u r
  | .orgDataResetLocks => (db .orgDataResetLocks).filter fun l : OrgDataResetLock =>
      !decide (l.acquiredByUserId = u)
  | .orgFeatureOverrides => (db .orgFeatureOverrides).mapRows (fun o : OrgFeatureOverride =>
      if o.setBy = some u then { o with setBy := none } else o) fun o => by split_ifs <;> rfl
  | .auditEvents => (db .auditEvents).mapRows (fun e : AuditEvent =>
      if e.actorUserId = some u then { e with actorUserId := none } else e) fun e => by
        split_ifs <;> rfl
  | .feedbackEntries => (db .feedbackEntries).mapRows (fun f : FeedbackEntry =>
      if f.userId = some u then { f with userId := none } else f) fun f => by split_ifs <;> rfl
  | .tags => (db .tags).mapRows (fun g : Tag =>
      if g.createdByUserId = some u then { g with createdByUserId := none } else g)
        fun g => by split_ifs <;> rfl
  | t => db t

/-- A row refers to an existing user through a key exactly when its column has the id of the
user. -/
theorem points_user (hu : ((db .users).get? u).isSome = true) (t : TableName) (k : Column)
    (kind : OnDelete) (r : t.RowType) :
    Schema.points db (Schema.onTable .users (hasId u)) ⟨t, k, .users, kind⟩ t r = true ↔
      t.ref r k = some u := by
  rw [Schema.points_iff]
  constructor
  · rintro ⟨i, hi, d, hd, hsel⟩
    rw [Schema.onTable_self] at hsel
    have hid : User.id d = i := Table.get?_id hd
    have hdu : User.id d = u := of_decide_eq_true hsel
    rw [← hdu, hid]
    exact hi
  · intro href
    obtain ⟨d, hd⟩ := Option.isSome_iff_exists.mp hu
    refine ⟨u, href, d, hd, ?_⟩
    rw [Schema.onTable_self]
    exact decide_eq_true (Table.get?_id hd)

/-- The row of a user who has issued no invitation and created no import batch can be deleted. -/
theorem delete_user (hu : ((db .users).get? u).isSome = true)
    (hinvitations : ∀ v ∈ (db .invitations).rows, issuedBy u v = false)
    (hbatches : ∀ b ∈ (db .importBatches).rows, importedBy u b = false) :
    Schema.delete DeleteUserError.integrity db (Schema.onTable .users (hasId u)) =
      .ok (db.withoutUserRow u) := by
  refine Schema.delete_eq_ok.mpr ⟨?_, ?_⟩
  · rw [shallow_users.restricted_iff]
    rintro ⟨fk, hfk, hkind, hparent, r, hr, hpoints⟩
    rcases (by decide : ∀ fk ∈ foreignKeys, fk.onDelete = .restrict → fk.parent = .users →
        fk = ⟨.importBatches, .createdByUserId, .users, .restrict⟩ ∨
        fk = ⟨.invitations, .createdByUserId, .users, .restrict⟩)
      fk hfk hkind hparent with rfl | rfl
    · have href := Option.some_inj.mp ((points_user hu _ _ _ _).mp hpoints)
      exact absurd (decide_eq_true href) (by rw [← importedBy, hbatches r hr]; simp)
    · have href := Option.some_inj.mp ((points_user hu _ _ _ _).mp hpoints)
      exact absurd (decide_eq_true href) (by rw [← issuedBy, hinvitations r hr]; simp)
  · funext t
    cases t
    case users => exact shallow_users.deleted_self (by decide)
    case orgDataResetLocks =>
      refine (shallow_users.deleted_of_cascade (by decide) (by decide)
        (show _ = [⟨.orgDataResetLocks, .acquiredByUserId, .users, .cascade⟩] by decide)
          rfl).trans ?_
      refine congrArg (db .orgDataResetLocks).filter (funext fun l => ?_)
      rw [Bool.not_inj_iff, Bool.eq_iff_iff, points_user hu .orgDataResetLocks, decide_eq_true_eq]
      exact Option.some_inj
    case orgFeatureOverrides =>
      exact shallow_users.deleted_of_setNull (by decide) (by decide)
        (show _ = [⟨.orgFeatureOverrides, .setBy, .users, .setNull⟩] by decide) rfl
        (fun _ => by split_ifs <;> rfl) fun o =>
          if_congr (points_user hu .orgFeatureOverrides .setBy .setNull o).symm rfl rfl
    case auditEvents =>
      exact shallow_users.deleted_of_setNull (by decide) (by decide)
        (show _ = [⟨.auditEvents, .actorUserId, .users, .setNull⟩] by decide) rfl
        (fun _ => by split_ifs <;> rfl) fun e =>
          if_congr (points_user hu .auditEvents .actorUserId .setNull e).symm rfl rfl
    case feedbackEntries =>
      exact shallow_users.deleted_of_setNull (by decide) (by decide)
        (show _ = [⟨.feedbackEntries, .userId, .users, .setNull⟩] by decide) rfl
        (fun _ => by split_ifs <;> rfl) fun f =>
          if_congr (points_user hu .feedbackEntries .userId .setNull f).symm rfl rfl
    case tags =>
      exact shallow_users.deleted_of_setNull (by decide) (by decide)
        (show _ = [⟨.tags, .createdByUserId, .users, .setNull⟩] by decide) rfl
        (fun _ => by split_ifs <;> rfl) fun g =>
          if_congr (points_user hu .tags .createdByUserId .setNull g).symm rfl rfl
    all_goals exact shallow_users.deleted_of_restrict (by decide) (by decide) (by decide)

/-! ### The delete as a whole -/

/-- The three deletes after each other leave the tables without the user. -/
theorem withoutUserRow_withoutImportBatches (db : Tenancy) (u : ℕ) :
    ((db.withoutInvitations (issuedBy u)).withoutImportBatches (importedBy u)).withoutUserRow u =
      db.withoutUser u := by
  funext t
  cases t
  all_goals rfl

/-- A user may be deleted: it exists, is inactive, and is neither a superadmin nor the one who
deletes. -/
structure Deletable (db : Tenancy) (u actor : ℕ) (r : User) : Prop where
  exists_row : (db .users).get? u = some r
  ne_actor : u ≠ actor
  not_superadmin : r.isSuperadmin = false
  not_active : r.isActive = false

/-- The numbers that a hard delete reports. -/
def deletion (db : Tenancy) (r : User) : DeletedUser where
  snapshot := r.snapshot
  invitations := ((db .invitations).rows.filter (issuedBy r.id)).length
  importBatches := ((db .importBatches).rows.filter (importedBy r.id)).length

/-- The rows of a user are deleted one after another, whatever refers to them. -/
theorem deleteUser_of_deletable {r : User} (h : db.Deletable u actor r) :
    db.deleteUser u actor = .ok (db.withoutUser u, db.deletion r) := by
  have hid : r.id = u := Table.get?_id h.exists_row
  have hrow :
      (((db.withoutInvitations (issuedBy u)).withoutImportBatches (importedBy u) .users).get?
        u).isSome = true := Option.isSome_iff_exists.mpr ⟨r, h.exists_row⟩
  have hinvitations :
      ∀ v ∈ ((db.withoutInvitations (issuedBy u)).withoutImportBatches (importedBy u)
        .invitations).rows, issuedBy u v = false := fun v hv => by
    simpa using (List.mem_filter.mp hv).2
  have hbatches : ∀ b ∈ ((db.withoutInvitations (issuedBy u)).withoutImportBatches (importedBy u)
      .importBatches).rows, importedBy u b = false := fun b hb => by
    simpa using (List.mem_filter.mp hb).2
  unfold deleteUser
  rw [bind_of_ok (orRaise_eq_ok.mpr h.exists_row), bind_of_ok (raiseIf_of_not (hid ▸ h.ne_actor)),
    bind_of_ok (raiseIf_of_not (by simp [h.not_superadmin])),
    bind_of_ok (raiseIf_of_not (by simp [h.not_active])), bind_of_ok (delete_invitations db _),
    bind_of_ok (delete_importBatches _ _), bind_of_ok (delete_user hrow hinvitations hbatches),
    withoutUserRow_withoutImportBatches]
  subst hid
  rfl

/-- The guards of a hard delete. -/
theorem deletable_of_deleteUser {x : Tenancy × DeletedUser} (h : db.deleteUser u actor = .ok x) :
    ∃ r, db.Deletable u actor r := by
  unfold deleteUser at h
  obtain ⟨r, hr, h⟩ := orRaise_bind_eq_ok.mp h
  simp only [↓unit_bind_eq_ok, raiseIf_eq_ok, Bool.not_eq_true] at h
  obtain ⟨hactor, hsuper, hactive, -⟩ := h
  have hid : r.id = u := Table.get?_id hr
  exact ⟨r, hr, hid ▸ hactor, hsuper, hactive⟩

/-- A hard delete that is not refused by its guards is not refused by the database. -/
theorem deleteUser_ne_integrity : db.deleteUser u actor ≠ .error .integrity := by
  intro herror
  by_cases h : ∃ r, db.Deletable u actor r
  · obtain ⟨r, hr⟩ := h
    rw [deleteUser_of_deletable hr] at herror
    cases herror
  · -- One of the guards fails, and its error is another one.
    unfold deleteUser at herror
    rcases bind_eq_error.mp herror with hnone | ⟨r, hr, herror⟩
    · exact absurd hnone (orRaise_ne_error (by simp))
    rw [orRaise_eq_ok] at hr
    have hid : r.id = u := Table.get?_id hr
    rcases bind_eq_error.mp herror with hself | ⟨⟨⟩, hself, herror⟩
    · exact absurd hself (raiseIf_ne_error (by simp))
    rcases bind_eq_error.mp herror with hsuper | ⟨⟨⟩, hsuper, herror⟩
    · exact absurd hsuper (raiseIf_ne_error (by simp))
    rcases bind_eq_error.mp herror with hactive | ⟨⟨⟩, hactive, herror⟩
    · exact absurd hactive (raiseIf_ne_error (by simp))
    rw [raiseIf_eq_ok] at hself hsuper hactive
    exact h ⟨r, hr, hid ▸ hself, by simpa using hsuper, by simpa using hactive⟩

/-- Every foreign key is satisfied after a hard delete when it was before. -/
theorem valid_withoutUser {r : User} (h : db.Deletable u actor r)
    (hvalid : Schema.Valid (S := tenancy) db) :
    Schema.Valid (S := tenancy) (db.withoutUser u) := by
  have hok := deleteUser_of_deletable h
  unfold deleteUser at hok
  simp only [↓unit_bind_eq_ok, bind_eq_ok, pure_eq_ok, Schema.delete_eq_ok, Prod.mk.injEq] at hok
  obtain ⟨_, _, _, _, _, db₁, ⟨hfree₁, rfl⟩, db₂, ⟨hfree₂, rfl⟩, db₃, ⟨hfree₃, rfl⟩, heq, -⟩ := hok
  rw [← heq]
  exact ((hvalid.deleted hfree₁).deleted hfree₂).deleted hfree₃

/-- An inactive user is no active owner. -/
theorem activeOwners_withoutUser {r : User} (h : db.Deletable u actor r) (org : ℕ) :
    (db.withoutUser u).members.activeOwners org = db.members.activeOwners org := by
  refine congrArg List.length ?_
  show (((db .users).rows.filter _).filter _) = (db .users).rows.filter _
  rw [List.filter_filter]
  refine List.filter_congr fun v hv => ?_
  by_cases hid : v.id = u
  · have hrow : v = r := by
      have hget := Table.get?_of_mem hv
      rw [show Row.id v = u from hid, h.exists_row] at hget
      exact (Option.some_inj.mp hget).symm
    simp [User.isActiveOwner, hrow, h.not_active]
  · simp [hasId, hid]

/-- A hard delete succeeds exactly when its guards pass, whatever refers to the user, and then
leaves exactly the tables without the user; the database never refuses it. It breaks no reference,
and every organisation keeps the active owners that it had. -/
theorem deleteUser_exact (db : Tenancy) (u actor : ℕ) :
    (∀ db' report, db.deleteUser u actor = .ok (db', report) ↔
      ∃ r, db.Deletable u actor r ∧ db' = db.withoutUser u ∧ report = db.deletion r) ∧
    db.deleteUser u actor ≠ .error .integrity ∧
    ∀ db' report, db.deleteUser u actor = .ok (db', report) →
      (Schema.Valid (S := tenancy) db → Schema.Valid (S := tenancy) db') ∧
      ∀ org, db'.members.activeOwners org = db.members.activeOwners org := by
  have hiff : ∀ db' report, db.deleteUser u actor = .ok (db', report) ↔
      ∃ r, db.Deletable u actor r ∧ db' = db.withoutUser u ∧ report = db.deletion r := by
    intro db' report
    constructor
    · intro h
      obtain ⟨r, hr⟩ := deletable_of_deleteUser h
      rw [deleteUser_of_deletable hr] at h
      obtain ⟨rfl, rfl⟩ := Prod.mk.inj (Except.ok.inj h)
      exact ⟨r, hr, rfl, rfl⟩
    · rintro ⟨r, hr, rfl, rfl⟩
      exact deleteUser_of_deletable hr
  refine ⟨hiff, deleteUser_ne_integrity, fun db' report h => ?_⟩
  obtain ⟨r, hr, rfl, -⟩ := (hiff db' report).mp h
  exact ⟨valid_withoutUser hr, activeOwners_withoutUser hr⟩

end Tenancy

end Pfv
