import Pfv.Base.Redirect
import Pfv.Services.Members
import Pfv.Services.OrgData

/-!
# Merging two users

The merge of two users over all tables (`backend/app/services/user_merge_service.py`): it redirects
the references of five tables by hand and deletes the source row. Seven tables refer to users. Not
redirected are the import batches a user created, which refuse the delete, and the feedback of a
user, which loses its author. The row counts the operation returns are left out.

## Main definitions

* `mergeUsers`: the merge.
* `Merged`: nothing was lost by a merge.

## Main results

* `mergeUsers_merged_iff`: a merge that passes its guards loses nothing exactly when the source
  created no import batch and wrote no feedback.
-/

namespace Pfv

namespace Tenancy

/-! ### The merge -/

/-- Write the reference to a user. -/
def pointTo : ∀ t : TableName, Column → ℕ → t.RowType → t.RowType
  | .auditEvents, .actorUserId, n, r => { r with actorUserId := some n }
  | .invitations, .createdByUserId, n, r => { r with createdBy := n }
  | .orgFeatureOverrides, .setBy, n, r => { r with setBy := some n }
  | .tags, .createdByUserId, n, r => { r with createdByUserId := some n }
  | .orgDataResetLocks, .acquiredByUserId, n, r => { r with acquiredByUserId := n }
  | _, _, _, r => r

/-- The columns `merge_users` redirects, in its order. -/
def mergeColumns : List (TableName × Column) :=
  [(.auditEvents, .actorUserId), (.invitations, .createdByUserId), (.orgFeatureOverrides, .setBy),
    (.tags, .createdByUserId), (.orgDataResetLocks, .acquiredByUserId)]

/-- `update(Model).where(Model.column == source_user_id).values(column=target_user_id)`. -/
@[reducible] def userSetter : tenancy.Setter where
  set := pointTo
  columns := mergeColumns
  id_set := by
    intro t k n r
    cases t
    all_goals
      cases k
      all_goals rfl
  ref_set := by
    intro p hp n r k
    simp only [mergeColumns, List.mem_cons, List.not_mem_nil, or_false] at hp
    rcases hp with rfl | rfl | rfl | rfl | rfl
    all_goals
      cases k
      all_goals rfl

/-- The tables the guards of a merge read. -/
def members (db : Tenancy) : Members :=
  ⟨db .organizations, db .users, db .invitations, db .importBatches⟩

/-- Carry the verified email over to the target. -/
def carryVerified (db : Tenancy) (targetUserId : ℕ) (carried : Bool) : Tenancy
  | .users =>
      if carried then (db .users).modify targetUserId (fun u => { u with emailVerified := true })
        fun _ => rfl
      else db .users
  | t => db t

/-- The writes of `merge_users`. -/
def writeMerge (db : Tenancy) : MemberPlan → Except ServiceError Tenancy
  | .merge sourceUserId targetUserId carried => do
      let reassigned : Tenancy ←
        mergeColumns.foldlM (userSetter.update (.database "IntegrityError") .users
          sourceUserId targetUserId) db
      (reassigned.carryVerified targetUserId carried).deleteWhere .users fun u =>
        u.id = sourceUserId
  | _ => pure db

/-- `merge_users`. -/
def mergeUsers (db : Tenancy) (sourceUserId targetUserId : ℕ) : Except ServiceError Tenancy := do
  let plan ← planMerge db.members sourceUserId targetUserId
  db.writeMerge plan

/-! ### What a merge is for -/

/-- The columns with a foreign key to the users. -/
def userColumns : List (TableName × Column) :=
  (foreignKeys.filter fun fk => fk.parent = .users).map fun fk => (fk.child, fk.column)

/-- Every foreign key is satisfied, the source is gone, the other users are as before, and every row
of every other table is still there: it refers to the target wherever it referred to the source, and
is left as it was when it did not. -/
structure Merged (db : Tenancy) (source target : ℕ) (db' : Tenancy) : Prop where
  valid : Schema.Valid db'
  gone : (db' .users).get? source = none
  users : ∀ i, i ≠ source → i ≠ target → (db' .users).get? i = (db .users).get? i
  referring : ∀ t, t ≠ .users → ∀ i r, (db t).get? i = some r → ∃ r', (db' t).get? i = some r' ∧
    ∀ k, t.ref r' k =
      if (t, k) ∈ userColumns ∧ t.ref r k = some source then some target else t.ref r k
  unchanged : ∀ t, t ≠ .users → ∀ i r, (db t).get? i = some r →
    (∀ k, (t, k) ∈ userColumns → t.ref r k ≠ some source) → (db' t).get? i = some r

/-- The source created no import batch and wrote no feedback. -/
def LeavesNothing (db : Tenancy) (source : ℕ) : Prop :=
  (∀ b : ImportBatch, b ∈ (db .importBatches).rows → b.createdByUserId ≠ source) ∧
    ∀ f : FeedbackEntry, f ∈ (db .feedbackEntries).rows → f.userId ≠ some source

instance (db : Tenancy) (source : ℕ) : Decidable (db.LeavesNothing source) :=
  inferInstanceAs (Decidable
    ((∀ b ∈ (db .importBatches).rows, ImportBatch.createdByUserId b ≠ source) ∧
    ∀ f ∈ (db .feedbackEntries).rows, FeedbackEntry.userId f ≠ some source))

/-! ### The redirected tables -/

variable {db db' : Tenancy} {source target : ℕ} {carried : Bool} {plan : MemberPlan}

/-- The tables right before the delete. -/
def reassigned (db : Tenancy) (source target : ℕ) (carried : Bool) : Tenancy :=
  carryVerified (userSetter.redirected source target mergeColumns db) target carried

theorem planMerge_eq_ok {db : Members} (h : planMerge db source target = .ok plan) :
    source ≠ target ∧ (db.users.get? source).isSome = true ∧ (db.users.get? target).isSome = true ∧
      ∃ carried, plan = .merge source target carried := by
  unfold planMerge at h
  simp only [bind_eq_ok, ↓unit_bind_eq_ok, orRaise_eq_ok, raiseIf_eq_ok, pure_eq_ok] at h
  obtain ⟨hne, s, hs, t, ht, -, -, -, rfl⟩ := h
  exact ⟨hne, by rw [hs]; rfl, by rw [ht]; rfl, _, rfl⟩

/-- A merge redirects the five columns and deletes the source. -/
theorem writeMerge_merge (htarget : ((db .users).get? target).isSome = true) :
    db.writeMerge (.merge source target carried) =
      (db.reassigned source target carried).deleteWhere .users fun u => u.id = source := by
  have hstep :
      mergeColumns.foldlM (userSetter.update (ServiceError.database "IntegrityError") .users
      source target) db = .ok (userSetter.redirected source target mergeColumns db) :=
    Schema.Setter.foldlM_update (ServiceError.database "IntegrityError") htarget
  unfold writeMerge
  exact bind_of_ok hstep

theorem get?_reassigned {t : TableName} (ht : t ≠ .users) (i : ℕ) :
    (db.reassigned source target carried t).get? i =
      ((db t).get? i).map (userSetter.redirectAll source target mergeColumns t) := by
  have hsame : db.reassigned source target carried t =
      userSetter.redirected source target mergeColumns db t := by
    cases t
    all_goals first | rfl | exact absurd rfl ht
  rw [hsame, Schema.Setter.get?_redirected]

/-- What a row refers to before the delete. -/
theorem ref_redirected (t : TableName) (r : tenancy.RowOf t) (k : Column) :
    t.ref (userSetter.redirectAll source target mergeColumns t r) k =
      if (t, k) ∈ mergeColumns ∧ t.ref r k = some source then some target else t.ref r k :=
  Schema.Setter.ref_redirectAll (fun _ hp => hp) t r k

/-- Nothing of a user is redirected. -/
theorem redirected_users :
    userSetter.redirected source target mergeColumns db .users = db .users := by
  refine Table.ext ((List.map_congr_left fun u _ => ?_).trans (List.map_id _)) rfl
  exact Schema.Setter.redirectAll_of_not fun k hk => absurd hk (by cases k <;> decide)

/-- The users before the delete: the target may have a verified email. -/
theorem get?_reassigned_users {i : ℕ} (hi : i ≠ target) :
    (db.reassigned source target carried .users).get? i = (db .users).get? i := by
  rw [← @redirected_users db source target]
  show (if carried then Table.modify _ _ _ _ else _ : Table User).get? i = _
  cases carried with
  | false => rfl
  | true =>
    rw [if_pos rfl, Table.get?_modify, if_neg hi]

theorem valid_reassigned (hvalid : Schema.Valid db)
    (htarget : ((db .users).get? target).isSome = true) :
    Schema.Valid (db.reassigned source target carried) := by
  have hredirected : Schema.Valid (userSetter.redirected source target mergeColumns db) :=
    Schema.Setter.valid_redirected hvalid htarget (fun p hp => hp) (by decide)
  refine hredirected.of_rows (fun t i h => ?_) (fun t r' hr' => ?_)
  · cases t
    case users =>
      show ((if carried then Table.modify _ _ _ _ else _ : Table User).get? i).isSome = true
      cases carried with
      | false => exact h
      | true =>
        rw [if_pos rfl, Table.get?_modify]
        split_ifs
        · rw [Option.isSome_map]
          exact h
        · exact h
    all_goals exact h
  · cases t
    case users =>
      change r' ∈ (if carried then Table.modify _ _ _ _ else _ : Table User).rows at hr'
      cases carried with
      | false => exact ⟨r', hr', fun _ _ h => h⟩
      | true =>
        rw [if_pos rfl] at hr'
        obtain ⟨r, hr, rfl⟩ := List.mem_map.mp hr'
        refine ⟨r, hr, fun k i h => ?_⟩
        split_ifs at h
        · cases k
          all_goals exact h
        · exact h
    all_goals exact ⟨r', hr', fun _ _ h => h⟩

/-- The row of the source. -/
def sourceRow (source : ℕ) : tenancy.Selection :=
  Schema.onTable .users fun u : User => u.id = source

theorem points_sourceRow {fk : ForeignKey TableName Column} {t : TableName} {r : tenancy.RowOf t}
    (h : Schema.points db (sourceRow source) fk t r = true) :
    fk.parent = .users ∧ t.ref r fk.column = some source := by
  obtain ⟨i, hi, d, hd, hsel⟩ := Schema.points_iff.mp h
  obtain ⟨child, column, parent, kind⟩ := fk
  by_cases hparent : TableName.users = parent
  · subst hparent
    refine ⟨rfl, ?_⟩
    rw [sourceRow, Schema.onTable_self, decide_eq_true_eq] at hsel
    have hid : User.id d = i := Table.get?_id hd
    rw [← hsel, hid]
    exact hi
  · rw [sourceRow, Schema.onTable_of_ne hparent] at hsel
    exact absurd hsel (by simp)

/-- A row that refers to the source refers to a row that goes with it. -/
theorem points_gone_of_ref {fk : ForeignKey TableName Column} (hfk : fk.parent = .users)
    {t : TableName} {r : tenancy.RowOf t} (href : t.ref r fk.column = some source)
    (hsource : ((db .users).get? source).isSome = true) :
    Schema.points db (Schema.gone db (sourceRow source)) fk t r = true := by
  obtain ⟨child, column, parent, kind⟩ := fk
  obtain rfl : parent = .users := hfk
  obtain ⟨u, hu⟩ := Option.isSome_iff_exists.mp hsource
  refine Schema.points_iff.mpr ⟨source, href, u, hu, Schema.cascade_of_sel ?_ _⟩
  rw [sourceRow, Schema.onTable_self]
  exact decide_eq_true (Table.get?_id hu)

/-- A column with a foreign key to the users is redirected, or it is the creator of an import batch
or the author of feedback. -/
theorem mem_mergeColumns_of_userColumns :
    ∀ p ∈ userColumns, p ∈ mergeColumns ∨ p = (.importBatches, .createdByUserId) ∨
      p = (.feedbackEntries, .userId) := by
  decide

theorem mem_userColumns_of_mergeColumns : ∀ p ∈ mergeColumns, p ∈ userColumns := by
  decide

/-- Where the source leaves nothing, the columns that refer to it are redirected. -/
theorem LeavesNothing.redirected (h : db.LeavesNothing source) {t : TableName} {r : tenancy.RowOf t}
    (hr : r ∈ (db t).rows) {k : Column} (href : t.ref r k = some source) :
    (t, k) ∈ userColumns ↔ (t, k) ∈ mergeColumns := by
  refine ⟨fun hk => ?_, mem_userColumns_of_mergeColumns _⟩
  rcases mem_mergeColumns_of_userColumns _ hk with hmem | heq | heq
  · exact hmem
  · obtain ⟨rfl, rfl⟩ := Prod.mk.inj heq
    exact absurd (Option.some_inj.mp href) (h.1 r hr)
  · obtain ⟨rfl, rfl⟩ := Prod.mk.inj heq
    exact absurd href (h.2 r hr)

/-- Then no row refers to the source any more. -/
theorem LeavesNothing.unpointed (h : db.LeavesNothing source) (hne : source ≠ target) :
    Schema.Unpointed (db.reassigned source target carried) (sourceRow source) fun _ => True := by
  intro fk hfk _ r' hr'
  by_contra hpoints
  obtain ⟨hparent, href⟩ := points_sourceRow (by simpa using hpoints)
  have hchild : fk.child ≠ .users :=
    (by decide : ∀ fk ∈ foreignKeys, fk.parent = .users → fk.child ≠ .users) fk hfk hparent
  have hget := Table.get?_of_mem hr'
  rw [get?_reassigned hchild] at hget
  obtain ⟨r, hr, rfl⟩ := Option.map_eq_some_iff.mp hget
  rw [ref_redirected] at href
  split_ifs at href with hredirected
  · exact hne (Option.some_inj.mp href).symm
  · refine hredirected ⟨?_, href⟩
    rw [← h.redirected (Table.get?_mem hr) href]
    exact List.mem_map.mpr ⟨fk, List.mem_filter.mpr ⟨hfk, decide_eq_true hparent⟩, rfl⟩

/-! ### The delete -/

/-- The row of the source is selected in no other table. -/
theorem filter_sourceRow {t : TableName} (ht : t ≠ .users) (o : Option (tenancy.RowOf t)) :
    o.filter (fun r => !sourceRow source t r) = o := by
  cases o with
  | none => rfl
  | some r =>
    refine Option.filter_some_pos ?_
    rw [sourceRow, Schema.onTable_of_ne ht.symm]
    rfl

/-- Where the source leaves nothing, the merge loses nothing. -/
theorem LeavesNothing.merged (h : db.LeavesNothing source) (hvalid : Schema.Valid db)
    (hne : source ≠ target) (htarget : ((db .users).get? target).isSome = true) :
    ∃ db', db.writeMerge (.merge source target carried) = .ok db' ∧
    Merged db source target db' := by
  obtain ⟨hfree, hdeleted⟩ := Schema.deleted_of_unreferenced
    (@LeavesNothing.unpointed db source target carried h hne)
  refine ⟨Schema.deleted (db.reassigned source target carried) (sourceRow source), ?_, ?_⟩
  · rw [writeMerge_merge htarget]
    exact Schema.delete_eq_ok.mpr ⟨hfree, rfl⟩
  have hkept : ∀ t, t ≠ .users → ∀ i r, (db t).get? i = some r →
      (Schema.deleted (db.reassigned source target carried) (sourceRow source) t).get? i =
        some (userSetter.redirectAll source target mergeColumns t r) := by
    intro t ht i r hr
    rw [hdeleted, Table.get?_filter, filter_sourceRow ht, get?_reassigned ht, hr]
    rfl
  refine
    { valid := (valid_reassigned hvalid htarget).deleted hfree
      gone := ?_
      users := fun i hsource hi => ?_
      referring := fun t ht i r hr => ⟨_, hkept t ht i r hr, fun k => ?_⟩
      unchanged := fun t ht i r hr hnot => ?_ }
  · rw [hdeleted, Table.get?_filter]
    refine Option.filter_eq_none_iff.mpr fun u hu => ?_
    have hid : User.id u = source := Table.get?_id hu
    simp [sourceRow, hid]
  · rw [hdeleted, Table.get?_filter, get?_reassigned_users hi]
    cases hu : (db .users).get? i with
    | none => rfl
    | some u =>
      have hid : User.id u = i := Table.get?_id hu
      refine Option.filter_some_pos ?_
      simp [sourceRow, hid, hsource]
  · rw [ref_redirected]
    by_cases href : t.ref r k = some source
    · simp only [href, h.redirected (Table.get?_mem hr) href]
    · simp [href]
  · rw [hkept t ht i r hr, Schema.Setter.redirectAll_of_not fun k hk =>
      hnot k (mem_userColumns_of_mergeColumns _ hk)]

/-- A table of which no column is redirected is as before. -/
theorem get?_reassigned_of_not {t : TableName} (ht : t ≠ .users)
    (hcolumns : ∀ k, (t, k) ∉ mergeColumns)
    (i : ℕ) : (db.reassigned source target carried t).get? i = (db t).get? i := by
  rw [get?_reassigned ht]
  cases hr : (db t).get? i with
  | none => rfl
  | some r =>
    exact congrArg some (Schema.Setter.redirectAll_of_not fun k hk => absurd hk (hcolumns k))

/-- An import batch of the source refuses the delete. -/
theorem restricted_of_importBatch {b : ImportBatch} (hb : b ∈ (db .importBatches).rows)
    (hcreator : b.createdByUserId = source)
    (hthere : ((db.reassigned source target carried .users).get? source).isSome = true) :
    Schema.Restricted (db.reassigned source target carried) (sourceRow source) := by
  let fk : ForeignKey TableName Column := ⟨.importBatches, .createdByUserId, .users, .restrict⟩
  have hget := Table.get?_of_mem hb
  rw [← @get?_reassigned_of_not db source target carried .importBatches (by decide)
    (fun k => by cases k <;> decide)] at hget
  have hpoints : Schema.points (db.reassigned source target carried)
      (Schema.gone (db.reassigned source target carried) (sourceRow source)) fk .importBatches b =
        true :=
    points_gone_of_ref rfl (congrArg some hcreator) hthere
  exact ⟨fk, by decide, rfl, b, Table.get?_mem hget, hpoints⟩

/-- Feedback of the source has no author after the delete. -/
theorem ref_feedback_deleted {f : FeedbackEntry} (hf : f ∈ (db .feedbackEntries).rows)
    (hauthor : f.userId = some source)
    (hthere : ((db.reassigned source target carried .users).get? source).isSome = true) :
    ∃ r', (Schema.deleted (db.reassigned source target carried) (sourceRow source)
      .feedbackEntries).get? f.id = some r' ∧ r'.userId = none := by
  let fk : ForeignKey TableName Column := ⟨.feedbackEntries, .userId, .users, .setNull⟩
  have hget := Table.get?_of_mem hf
  rw [← @get?_reassigned_of_not db source target carried .feedbackEntries (by decide)
    (fun k => by cases k <;> decide)] at hget
  have hkept : Schema.gone (db.reassigned source target carried) (sourceRow source)
      .feedbackEntries f = false := by
    rw [Schema.gone_of_no_cascade (by decide), sourceRow, Schema.onTable_of_ne (by decide)]
  have hpoints : Schema.points (db.reassigned source target carried)
      (Schema.gone (db.reassigned source target carried) (sourceRow source)) fk .feedbackEntries f =
        true :=
    points_gone_of_ref rfl hauthor hthere
  refine ⟨Schema.nullify (db.reassigned source target carried)
    (Schema.gone (db.reassigned source target carried) (sourceRow source)) .feedbackEntries f,
    ?_, ?_⟩
  · have hid : (db.reassigned source target carried .feedbackEntries).get? f.id = some f := hget
    rw [Schema.get?_deleted, hid, Option.filter_some_pos (by simp [hkept])]
    rfl
  · have hnull := @Schema.ref_nullify _ _ _ tenancy _ (db.reassigned source target carried)
      (Schema.gone (db.reassigned source target carried) (sourceRow source)) .feedbackEntries f
        .userId
    rw [if_pos] at hnull
    · exact hnull
    · exact List.mem_map.mpr ⟨fk, List.mem_filter.mpr
        ⟨by decide, decide_eq_true ⟨rfl, rfl, hpoints⟩⟩, rfl⟩

/-- A merge that loses nothing has a source that left nothing: its import batches refuse the delete,
and its feedback loses its author. -/
theorem leavesNothing_of_merged (hsource : ((db .users).get? source).isSome = true)
    (hne : source ≠ target) (htarget : ((db .users).get? target).isSome = true)
    (hok : db.writeMerge (.merge source target carried) = .ok db')
    (hmerged : Merged db source target db') : db.LeavesNothing source := by
  rw [writeMerge_merge htarget] at hok
  obtain ⟨hfree, rfl⟩ := Schema.delete_eq_ok.mp hok
  have hthere : ((db.reassigned source target carried .users).get? source).isSome = true := by
    rw [get?_reassigned_users hne]
    exact hsource
  constructor
  · intro b hb hcreator
    exact hfree (restricted_of_importBatch hb hcreator hthere)
  · intro f hf hauthor
    obtain ⟨r', hr', href⟩ :=
      hmerged.referring .feedbackEntries (by decide) _ f (Table.get?_of_mem hf)
    obtain ⟨r, hr, hnone⟩ := ref_feedback_deleted hf hauthor hthere
    obtain rfl := Option.some_inj.mp (hr.symm.trans hr')
    have hauthors := href .userId
    rw [if_pos ⟨by decide, hauthor⟩] at hauthors
    exact absurd (hnone.symm.trans hauthors) (by simp)

/-- A merge that passes its guards succeeds and loses nothing exactly when the source created
no import batch and wrote no feedback. -/
theorem mergeUsers_merged_iff (hvalid : Schema.Valid db)
    (hguards : planMerge db.members source target = .ok plan) :
    (∃ db', db.mergeUsers source target = .ok db' ∧ Merged db source target db') ↔
      db.LeavesNothing source := by
  obtain ⟨hne, hsource, htarget, carried, rfl⟩ := planMerge_eq_ok hguards
  have hmerge : db.mergeUsers source target = db.writeMerge (.merge source target carried) := by
    unfold mergeUsers
    exact bind_of_ok hguards
  rw [hmerge]
  constructor
  · rintro ⟨db', hok, hmerged⟩
    exact leavesNothing_of_merged hsource hne htarget hok hmerged
  · intro h
    exact h.merged hvalid hne htarget

/-! ### Sample users -/

/-- A local user and its duplicate from a single sign-on, which issued an invitation, created a tag,
holds the reset lock and acted once. -/
def sampleDuplicates : Tenancy
  | .organizations => Table.empty.insert { name := "Casa" }
  | .users => (Table.empty.insert { orgId := 1, username := "ana", email := "ana@casa" }).insert
      { orgId := 1, username := "ana2", email := "ana@casa.pt", emailVerified := true }
  | .invitations => Table.empty.insert
      { orgId := 1, email := "rui@casa", role := .member, openEmail := none, createdBy := 2,
        expiresAt := 100 }
  | .orgDataResetLocks => Table.empty.insert { orgId := 1, acquiredByUserId := 2 }
  | .auditEvents => Table.empty.insert { eventType := "user.login", actorUserId := some 2 }
  | .tags => Table.empty.insert
      { orgId := 1, name := "food", nameNormalized := "food", createdByUserId := some 2 }
  | .accountTypes => Table.empty.insert { id := 0, orgId := 1, slug := none, name := "Bank" }
  | .accounts => Table.empty.insert
      { orgId := 1, accountTypeId := 1, name := "Main",
        openingBalanceDate := .of 2024 1 1 }
  | _ => Table.empty

theorem mergeUsers_merged_of_sampleDuplicates :
    ∃ db', sampleDuplicates.mergeUsers 2 1 = .ok db' ∧ Merged sampleDuplicates 2 1 db' :=
  (@mergeUsers_merged_iff sampleDuplicates 2 1 (.merge 2 1 true) (by decide +kernel) rfl).mpr
    (by decide +kernel)

/-- The same after the duplicate imported a file. -/
def sampleImporter : Tenancy
  | .importBatches => Table.empty.insert
      { orgId := 1, accountId := 1, sourceFormat := .csv, fileName := "may.csv",
        createdByUserId := 2 }
  | t => sampleDuplicates t

/-- The same after the duplicate wrote feedback. -/
def sampleAuthor : Tenancy
  | .feedbackEntries => Table.empty.insert { userId := some 2, orgId := some 1, message := "Nice" }
  | t => sampleDuplicates t

/-- The import batch refuses the merge. The feedback stays without its author. -/
theorem not_mergeUsers_merged_of_sample :
    Schema.Valid (S := tenancy) sampleImporter ∧
      (planMerge sampleImporter.members 2 1).isOk = true ∧
      (sampleImporter.mergeUsers 2 1).isOk = false ∧
      ¬(∃ db', sampleImporter.mergeUsers 2 1 = .ok db' ∧ Merged sampleImporter 2 1 db') ∧
      Schema.Valid (S := tenancy) sampleAuthor ∧
      (planMerge sampleAuthor.members 2 1).isOk = true ∧
      (sampleAuthor.mergeUsers 2 1).isOk = true ∧
      ¬(∃ db', sampleAuthor.mergeUsers 2 1 = .ok db' ∧ Merged sampleAuthor 2 1 db') := by
  have hrefused : (sampleImporter.mergeUsers 2 1).isOk = false := by decide +kernel
  refine ⟨by decide +kernel, by decide +kernel, hrefused, ?_, by decide +kernel, by decide +kernel,
    by decide +kernel, ?_⟩
  · rintro ⟨db', hok, -⟩
    rw [hok] at hrefused
    exact absurd hrefused (by simp [Except.isOk, Except.toBool])
  · rintro ⟨db', hok, hmerged⟩
    have hauthor : (sampleAuthor.mergeUsers 2 1).map (fun db =>
        ((db .feedbackEntries).get? 1).map FeedbackEntry.userId) = .ok (some none) := by
      decide +kernel
    rw [hok] at hauthor
    obtain ⟨r', hr', href⟩ := hmerged.referring .feedbackEntries (by decide) 1
      { id := 1, userId := some 2, orgId := some 1, message := "Nice" } (by decide +kernel)
    have hnull : ((db' .feedbackEntries).get? 1).map FeedbackEntry.userId = some none :=
      Except.ok.inj hauthor
    rw [hr'] at hnull
    have hrow := href .userId
    rw [if_pos ⟨by decide, rfl⟩] at hrow
    exact absurd ((Option.some_inj.mp hnull).symm.trans hrow) (by simp)

end Tenancy

end Pfv
