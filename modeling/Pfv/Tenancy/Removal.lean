import Pfv.Tenancy.Wipe

/-!
# When the data of an organisation is removed

None of the operations that remove an organisation's data deletes an import batch. So each of them
does what it is for exactly when the organisation has no import batch and no row of another
organisation refers to one of the rows that go; the reset also needs a batch of at least one row,
unless there is nothing to delete in batches.

## Main results

* `wipeOrgData_eq_ok_iff`, `resetOrgData_eq_ok_iff`, `deleteOrgCascade_iff`: when each operation
  does what it is for.
* `org_data_removed_iff`: the three together.
-/

namespace Pfv

namespace Tenancy

section

variable {db db' : Tenancy} {org : ℕ}

/-! ### What every successful operation keeps -/

/-- A successful operation keeps the foreign keys satisfied, the import batches and the counters of
primary keys. -/
structure Sound (db db' : Tenancy) : Prop where
  valid : Schema.Valid (S := tenancy) db → Schema.Valid (S := tenancy) db'
  batches : db' .importBatches = db .importBatches
  next : ∀ t, (db' t).next = (db t).next

theorem Sound.refl (db : Tenancy) : Sound db db :=
  ⟨id, rfl, fun _ => rfl⟩

theorem Sound.trans {db'' : Tenancy} (h : Sound db db') (h' : Sound db' db'') : Sound db db'' :=
  ⟨h'.valid ∘ h.valid, h'.batches.trans h.batches, fun t => (h'.next t).trans (h.next t)⟩

theorem deleteWhere_ok {t : TableName} {p : tenancy.RowOf t → Bool}
    (h : db.deleteWhere t p = .ok db') :
    ¬Schema.Restricted db (Schema.onTable t p) ∧
      Schema.deleted db (Schema.onTable t p) = db' :=
  Schema.delete_eq_ok.mp h

/-- A delete leaves the tables alone that no cascade from it reaches and no key of which it
clears. -/
theorem deleteWhere_same {t : TableName} {p : tenancy.RowOf t → Bool} (doomed : TableName → Prop)
    (h : db.deleteWhere t p = .ok db') (ht : doomed t)
    (hclosed : ∀ fk ∈ foreignKeys, fk.onDelete = .cascade → doomed fk.parent → doomed fk.child)
    {c : TableName} (hc : ¬doomed c)
    (hcleared : ∀ fk ∈ foreignKeys, fk.child = c → fk.onDelete = .setNull → ¬doomed fk.parent) :
    db' c = db c := by
  rw [← (deleteWhere_ok h).2]
  refine Schema.deleted_same hclosed (fun t' r hsel => ?_) hc hcleared
  by_cases htt' : t = t'
  · exact htt' ▸ ht
  · simp [Schema.onTable_of_ne htt'] at hsel

theorem deleteWhere_sound {t : TableName} {p : tenancy.RowOf t → Bool} (ht : t ≠ .importBatches)
    (h : db.deleteWhere t p = .ok db') : Sound db db' where
  valid hv := (deleteWhere_ok h).2 ▸ hv.deleted (deleteWhere_ok h).1
  batches := deleteWhere_same (· ≠ .importBatches) h ht (by decide) (by decide)
    (by decide)
  next t := (deleteWhere_ok h).2 ▸ rfl

theorem clearParents_sound (db : Tenancy) (org : ℕ) : Sound db (db.clearParents org) :=
  have h := clearParents_progress db db org [.importBatches] (by decide)
  ⟨h.valid, h.same _ (by decide), h.next⟩

theorem mapDictionary_sound (db : Tenancy) (f : TagDictionary → ℤ) :
    Sound db (db.mapDictionary f) :=
  have h := mapDictionary_progress db db 0 [.importBatches] f
    (by decide)
  ⟨h.valid, h.same _ (by decide), h.next⟩

theorem foldlM_sound {erase : Tenancy → TableName → Except ServiceError Tenancy}
    (herase : ∀ db t db', t ≠ .importBatches → erase db t = .ok db' → Sound db db')
    {tables : List TableName} (htables : .importBatches ∉ tables)
    (h : tables.foldlM erase db = .ok db') : Sound db db' := by
  induction tables generalizing db with
  | nil => exact pure_eq_ok.mp h ▸ Sound.refl db
  | cons t tables ih =>
    rw [List.foldlM_cons, bind_eq_ok] at h
    obtain ⟨db₁, hstep, hrest⟩ := h
    rw [List.mem_cons, not_or] at htables
    exact (herase db t db₁ (Ne.symm htables.1) hstep).trans (ih htables.2 hrest)

theorem deleteByOrg_sound (db : Tenancy) (t : TableName) (db' : Tenancy)
    (ht : t ≠ .importBatches) (h : deleteByOrg org db t = .ok db') : Sound db db' :=
  deleteWhere_sound ht h

theorem batchDeleteLoop_sound {batchSize : ℕ} {t : TableName} (ht : t ≠ .importBatches) :
    ∀ (fuel : ℕ) {db : Tenancy}, batchDeleteLoop org batchSize t fuel db = .ok db' → Sound db db'
  | 0, _, h => by simp [batchDeleteLoop] at h
  | fuel + 1, db, h => by
      rw [batchDeleteLoop] at h
      by_cases hnone : ((db.ownRows org t).take batchSize).map Row.id = []
      · rw [if_pos hnone] at h
        exact pure_eq_ok.mp h ▸ Sound.refl db
      · rw [if_neg hnone, bind_eq_ok] at h
        obtain ⟨db₁, hdelete, hrest⟩ := h
        refine (deleteWhere_sound ht hdelete).trans ?_
        split_ifs at hrest
        · exact pure_eq_ok.mp hrest ▸ Sound.refl db₁
        · exact batchDeleteLoop_sound ht fuel hrest

theorem batchDeleteByPk_sound {batchSize : ℕ} (db : Tenancy) (t : TableName) (db' : Tenancy)
    (ht : t ≠ .importBatches) (h : batchDeleteByPk org batchSize db t = .ok db') : Sound db db' :=
  batchDeleteLoop_sound ht _ h

theorem wipeTags_sound (h : db.wipeTags org = .ok db') : Sound db db' := by
  unfold wipeTags decrementDictionaryCountsForOrg at h
  simp only [bind_eq_ok] at h
  obtain ⟨db₁, h₁, db₂, h₂, h₃⟩ := h
  rw [foldl_decrement] at h₂
  exact (deleteWhere_sound (by decide) h₁).trans ((mapDictionary_sound db₁ _).trans
    ((deleteWhere_sound (by decide) h₂).trans (deleteWhere_sound (by decide) h₃)))

theorem wipeOrgData_sound (h : db.wipeOrgData org = .ok db') : Sound db db' := by
  unfold wipeOrgData at h
  simp only [bind_eq_ok] at h
  obtain ⟨db₁, h₁, db₂, h₂, h₃⟩ := h
  exact (foldlM_sound deleteByOrg_sound (by decide) h₁).trans ((clearParents_sound db₁ org).trans
    ((deleteWhere_sound (by decide) h₂).trans (wipeTags_sound h₃)))

theorem wipeInBatches_sound {batchSize : ℕ} (h : db.wipeInBatches org batchSize = .ok db') :
    Sound db db' := by
  unfold wipeInBatches at h
  simp only [bind_eq_ok] at h
  obtain ⟨db₁, h₁, db₂, h₂, h₃⟩ := h
  exact (foldlM_sound batchDeleteByPk_sound (by decide) h₁).trans
    ((clearParents_sound db₁ org).trans
      ((batchDeleteByPk_sound _ _ _ (by decide) h₂).trans (wipeTags_sound h₃)))

/-! ### What complete removal needs -/

/-- Where the rows of other organisations stay and those of this one go, and every foreign key is
satisfied afterwards, no row of another organisation referred to a row that went. -/
theorem isolated_of_valid {tables : List TableName} (hvalid : Schema.Valid (S := tenancy) db')
    (hstays : ∀ t, ∀ r ∈ (db t).rows, db.foreign org t r = true → r ∈ (db' t).rows)
    (hgone : ∀ t ∈ tables, ∀ d ∈ (db t).rows, ((db' t).get? (Row.id d)).isSome = true →
      db.foreign org t d = true) : db.Isolated org tables := by
  intro fk hfk ht r hr hforeign i hi d hd
  refine hgone fk.parent ht d (Table.get?_mem hd) ?_
  rw [Table.get?_id hd]
  exact hvalid fk hfk r (hstays fk.child r hr hforeign) i hi

theorem noImportBatch_of_foreign
    (h : ∀ b ∈ (db .importBatches).rows, db.foreign org .importBatches b = true) :
    db.NoImportBatch org := by
  intro b hb
  have := h b hb
  simpa [foreign, owner, TableName.ref] using this

/-- The rows of other organisations are in the emptied database. -/
theorem mem_emptied {t : TableName} {r : tenancy.RowOf t} (hr : r ∈ (db t).rows)
    (hforeign : db.foreign org t r = true) : r ∈ (db.emptied org t).rows := by
  by_cases hdata : t ∈ dataTables
  · rw [emptied_of_mem db org hdata]
    exact List.mem_filter.mpr ⟨hr, hforeign⟩
  · by_cases hdictionary : t = .tagDictionary
    · subst hdictionary
      exact absurd hforeign (by simp [foreign, owner])
    · rwa [emptied_of_not_mem db org hdata hdictionary]

/-- Where a table keeps the rows of other organisations alone, a row that is still there under its
key belongs to another organisation. -/
theorem foreign_of_filter {t : TableName} (h : db' t = (db t).filter (db.foreign org t))
    {d : tenancy.RowOf t} (hd : d ∈ (db t).rows) (hget : ((db' t).get? (Row.id d)).isSome = true) :
    db.foreign org t d = true := by
  rw [h, Table.get?_filter, Table.get?_of_mem hd] at hget
  cases hforeign : db.foreign org t d with
  | true => rfl
  | false => simp [hforeign] at hget

theorem wipedTables_subset {t : TableName} (ht : t ∈ wipedTables) : t ∈ dataTables :=
  (by decide : ∀ t ∈ wipedTables, t ∈ dataTables) t ht

/-- What a complete removal says about the database it started from. -/
theorem complete_of_sound {tables : List TableName} (hv : Schema.Valid (S := tenancy) db)
    (hsound : Sound db db') (himports : .importBatches ∈ tables)
    (htables : ∀ t ∈ tables, db' t = (db t).filter (db.foreign org t))
    (hstays : ∀ t, ∀ r ∈ (db t).rows, db.foreign org t r = true → r ∈ (db' t).rows) :
    db.NoImportBatch org ∧ db.Isolated org tables := by
  refine ⟨noImportBatch_of_foreign fun b hb => ?_, isolated_of_valid (hsound.valid hv) hstays
    fun t ht d hd hget => foreign_of_filter (htables t ht) hd hget⟩
  refine foreign_of_filter (htables _ himports) hb ?_
  rw [hsound.batches, Table.get?_of_mem hb]
  rfl

/-- What a complete wipe says about the database it started from. -/
theorem complete_of_emptied (hv : Schema.Valid (S := tenancy) db)
    (hsound : Sound db (db.emptied org)) :
    db.NoImportBatch org ∧ db.Isolated org dataTables :=
  complete_of_sound hv hsound (by decide) (fun _ ht => emptied_of_mem db org ht)
    fun _ _ hr hforeign => mem_emptied hr hforeign

/-- The wipe does what it is for exactly when the organisation has no import batch and no row of
another organisation refers to its data. -/
theorem wipeOrgData_eq_ok_iff (hv : Schema.Valid (S := tenancy) db) :
    db.wipeOrgData org = .ok (db.emptied org) ↔
      db.NoImportBatch org ∧ db.Isolated org dataTables := by
  constructor
  · intro h
    exact complete_of_emptied hv (wipeOrgData_sound h)
  · rintro ⟨hbatch, hiso⟩
    exact (wipeOrgData_ok hv (fun fk hfk ht => hiso fk hfk (wipedTables_subset ht)) hbatch).1

/-! ### The seed -/

theorem insertMissing_grown (existing : List (Option String)) (s : Table Category × ℕ)
    (c : Category) : s.1.Grown (insertMissing existing s c).1 := by
  unfold insertMissing
  split_ifs
  · exact Table.Grown.refl _
  · exact Table.grown_insert _ c

theorem foldl_insertMissing_grown (existing : List (Option String)) :
    ∀ (l : List Category) (s : Table Category × ℕ),
      s.1.Grown (l.foldl (insertMissing existing) s).1
  | [], _ => Table.Grown.refl _
  | c :: l, s => (insertMissing_grown existing s c).trans (foldl_insertMissing_grown existing l _)

theorem foldl_insertMaster_grown (org : ℕ) (existing : List (Option String)) :
    ∀ (l : List MasterDef) (s : Table Category × ℕ),
      s.1.Grown (l.foldl (insertMaster org existing) s).1
  | [], _ => Table.Grown.refl _
  | _ :: l, s => ((insertMissing_grown existing s _).trans
      (foldl_insertMissing_grown existing _ _)).trans (foldl_insertMaster_grown org existing l _)

theorem seedCategories_grown (cats : Table Category) (org : ℕ) :
    cats.Grown (seedCategories cats org) :=
  (foldl_insertMaster_grown org (systemSlugs cats org) systemCategories (cats, 0)).trans
    (foldl_insertMissing_grown _ _ _)

/-- The seed adds rows after those there are. -/
theorem seedOrgDefaults_grown (db : Tenancy) (org : ℕ) (t : TableName) :
    (db t).Grown (db.seedOrgDefaults org t) := by
  cases t
  all_goals first
    | exact Table.Grown.refl _
    | exact Table.grown_foldl Table.grown_insert _ _
    | exact seedCategories_grown _ org

/-- Databases with the same counters that agree after the seed agreed before it. -/
theorem seedOrgDefaults_inj (hnext : ∀ t, (db' t).next = (db t).next)
    (h : db'.seedOrgDefaults org = db.seedOrgDefaults org) : db' = db := by
  funext t
  refine (seedOrgDefaults_grown db' org t).eq ?_ (hnext t)
  rw [h]
  exact seedOrgDefaults_grown db org t

/-! ### The reset -/

theorem next_emptied (db : Tenancy) (org : ℕ) (t : TableName) :
    (db.emptied org t).next = (db t).next := by
  by_cases hdata : t ∈ dataTables
  · rw [emptied_of_mem db org hdata]
    rfl
  · by_cases hdictionary : t = .tagDictionary
    · subst hdictionary
      rfl
    · rw [emptied_of_not_mem db org hdata hdictionary]

/-- A batch of no row deletes nothing. -/
theorem batchDeleteByPk_zero (db : Tenancy) (org : ℕ) (t : TableName) :
    batchDeleteByPk org 0 db t = .ok db := by
  rw [batchDeleteByPk, batchDeleteLoop]
  simp only [List.take_zero, List.map_nil, if_true]
  rfl

theorem wipeInBatches_zero (db : Tenancy) (org : ℕ) :
    db.wipeInBatches org 0 = (db.clearParents org).wipeTags org := by
  have hnothing : ∀ tables : List TableName, tables.foldlM (batchDeleteByPk org 0) db = .ok db := by
    intro tables
    induction tables with
    | nil => rfl
    | cons t tables ih => rw [List.foldlM_cons, bind_of_ok (batchDeleteByPk_zero db org t), ih]
  unfold wipeInBatches
  rw [bind_of_ok (hnothing childrenFirst), bind_of_ok (batchDeleteByPk_zero _ org .categories)]

/-- Nothing of the organisation is deleted in batches. -/
def NothingInBatches (db : Tenancy) (org : ℕ) : Prop :=
  ∀ t ∈ childrenFirst ++ [.categories], db.ownRows org t = []

instance (db : Tenancy) (org : ℕ) : Decidable (db.NothingInBatches org) :=
  inferInstanceAs (Decidable (∀ t ∈ childrenFirst ++ [TableName.categories], db.ownRows org t = []))

theorem wipeTags_same (h : db.wipeTags org = .ok db') {t : TableName}
    (ht : t ∉ [.transactionTags, .tagDictionaryContributors, .tags, .tagDictionary]) :
    db' t = db t := by
  unfold wipeTags decrementDictionaryCountsForOrg at h
  simp only [bind_eq_ok] at h
  obtain ⟨db₁, h₁, db₂, h₂, h₃⟩ := h
  rw [foldl_decrement] at h₂
  have hstep : ∀ {t₀ : TableName} {d d' : Tenancy} {p : tenancy.RowOf t₀ → Bool},
      d.deleteWhere t₀ p = .ok d' → t₀ ∈ [.transactionTags, .tagDictionaryContributors, .tags] →
        d' t = d t := by
    intro t₀ d d' p hdelete ht₀
    refine deleteWhere_same (· ∈ [.transactionTags, .tagDictionaryContributors, .tags])
      hdelete ht₀ (by decide) (fun h => ht (by revert h; simp; tauto)) fun fk hfk _ hnull => ?_
    exact (by decide : ∀ fk ∈ foreignKeys, fk.onDelete = .setNull →
      fk.parent ∉ [TableName.transactionTags, .tagDictionaryContributors, .tags]) fk hfk hnull
  rw [hstep h₃ (by decide), hstep h₂ (by decide),
    mapDictionary_of_ne _ _ fun h => ht (by rw [h]; decide), hstep h₁ (by decide)]

theorem mem_orgTables {t : TableName} (ht : t ∈ childrenFirst ++ [.categories]) : t ∈ orgTables :=
  (by decide : ∀ t ∈ childrenFirst ++ [TableName.categories], t ∈ orgTables) t ht

/-- Clearing the parents changes no organisation column. -/
theorem exists_mem_of_clearParents {t : TableName} {r : tenancy.RowOf t}
    (hr : r ∈ (db.clearParents org t).rows) :
    ∃ r₀ ∈ (db t).rows, t.ref r₀ .orgId = t.ref r .orgId := by
  by_cases hcategories : t = .categories
  · subst hcategories
    obtain ⟨c, hc, rfl⟩ := mem_clearParents hr
    exact ⟨c, hc, congrArg some (asRoot_orgId c).symm⟩
  · exact ⟨r, by rwa [clearParents_of_ne db org hcategories] at hr, rfl⟩

theorem exists_mem_clearParents (org : ℕ) {t : TableName} {r : tenancy.RowOf t}
    (hr : r ∈ (db t).rows) :
    ∃ r' ∈ (db.clearParents org t).rows, t.ref r' .orgId = t.ref r .orgId := by
  by_cases hcategories : t = .categories
  · subst hcategories
    exact ⟨asRoot org r, List.mem_map_of_mem hr, congrArg some (asRoot_orgId r)⟩
  · exact ⟨r, by rwa [clearParents_of_ne db org hcategories], rfl⟩

/-- The rows of a table all belong to other organisations, also after the categories became roots,
exactly when the organisation has no rows there. -/
theorem purged_clearParents_iff {t : TableName} (ht : t ∈ orgTables) :
    Schema.Purged (S := tenancy) (db.foreign org) (db.clearParents org) t ↔
      db.ownRows org t = [] := by
  constructor
  · intro hpurged
    refine List.eq_nil_iff_forall_not_mem.mpr fun r hr => ?_
    obtain ⟨hr, hown⟩ := mem_ownRows.mp hr
    obtain ⟨r', hr', hsame⟩ := exists_mem_clearParents org hr
    have hforeign := hpurged r' hr'
    rw [(foreign_eq_false_iff ht r').mpr (hsame.trans hown)] at hforeign
    exact absurd hforeign (by simp)
  · intro hnone r hr
    by_contra hstays
    obtain ⟨r₀, hr₀, hown⟩ := exists_mem_of_clearParents hr
    rw [(foreign_eq_false_iff ht r).mp (by simpa using hstays)] at hown
    have hmem : r₀ ∈ db.ownRows org t := mem_ownRows.mpr ⟨hr₀, hown⟩
    simp [hnone] at hmem

/-- A batched wipe that does what it is for without deleting in batches had nothing to delete. -/
theorem nothingInBatches_of_wipe (h : db.wipeInBatches org 0 = .ok (db.emptied org)) :
    db.NothingInBatches org := by
  rw [wipeInBatches_zero] at h
  intro t ht
  have hsame : db.emptied org t = db.clearParents org t :=
    wipeTags_same h ((by decide : ∀ t ∈ childrenFirst ++ [TableName.categories], t ∉
      [TableName.transactionTags, .tagDictionaryContributors, .tags, .tagDictionary]) t ht)
  rw [emptied_of_mem db org ((by decide : ∀ t ∈ childrenFirst ++ [TableName.categories],
    t ∈ dataTables) t ht)] at hsame
  refine (purged_clearParents_iff (mem_orgTables ht)).mp fun r hr => ?_
  rw [← hsame] at hr
  exact (List.mem_filter.mp hr).2

/-- The batched wipe does what it is for exactly when the wipe at once does and a batch has at least
one row, unless there is nothing to delete in batches. -/
theorem wipeInBatches_eq_ok_iff {batchSize : ℕ} (hv : Schema.Valid (S := tenancy) db) :
    db.wipeInBatches org batchSize = .ok (db.emptied org) ↔
      db.NoImportBatch org ∧ db.Isolated org dataTables ∧
        (1 ≤ batchSize ∨ db.NothingInBatches org) := by
  constructor
  · intro h
    obtain ⟨hbatch, hiso⟩ := complete_of_emptied hv (wipeInBatches_sound h)
    refine ⟨hbatch, hiso, ?_⟩
    rcases Nat.eq_zero_or_pos batchSize with rfl | hsize
    · exact .inr (nothingInBatches_of_wipe h)
    · exact .inl hsize
  · rintro ⟨hbatch, hiso, hsize⟩
    have hwiped : db.Isolated org wipedTables :=
      fun fk hfk ht => hiso fk hfk (wipedTables_subset ht)
    by_cases hpos : 1 ≤ batchSize
    · exact (wipeInBatches_ok hpos hv hwiped hbatch).1
    · obtain rfl : batchSize = 0 := by omega
      have hnothing := hsize.resolve_left hpos
      rw [wipeInBatches_zero]
      exact (wipeTags_ok hv hwiped hbatch (clearParents_progress db db org restTables (by decide))
        fun t ht => (purged_clearParents_iff (mem_orgTables ht)).mpr (hnothing t ht)).1

/-- The reset does what it is for exactly when the batched wipe does. -/
theorem resetOrgData_eq_ok_iff {batchSize : ℕ} (hv : Schema.Valid (S := tenancy) db) :
    db.resetOrgData org batchSize = .ok ((db.emptied org).seedOrgDefaults org) ↔
      db.NoImportBatch org ∧ db.Isolated org dataTables ∧
        (1 ≤ batchSize ∨ db.NothingInBatches org) := by
  rw [← wipeInBatches_eq_ok_iff hv]
  unfold resetOrgData
  simp only [bind_eq_ok, pure_eq_ok]
  constructor
  · rintro ⟨wiped, hwiped, hseed⟩
    rw [hwiped, seedOrgDefaults_inj (fun t => ?_) hseed]
    rw [next_emptied, (wipeInBatches_sound hwiped).next]
  · intro h
    exact ⟨_, h, rfl⟩

/-! ### The deletion of the organisation -/

/-- The tables the deletion of an organisation removes rows from. -/
def removedTables : List TableName :=
  dataTables ++ shellTables ++ [.organizations, .orgDataResetLocks]

theorem removal_removedTables (db : Tenancy) (org : ℕ) :
    Schema.Removal (S := tenancy) (db.foreign org) (· ∈ removedTables) (· ∈ [.tagDictionary]) :=
  removal db org (by decide) (by decide) (by decide)

/-- What `delete_org_cascade` does once the data is wiped. -/
def deleteShell (db : Tenancy) (org : ℕ) : Except ServiceError Tenancy := do
  let bare ← shellTables.foldlM (deleteByOrg org) db
  bare.deleteWhere .organizations fun o => o.id = org

theorem foreign_organizations {o : Organization} :
    db.foreign org .organizations o = true ↔ o.id ≠ org := by
  simp [foreign, owner]

theorem foreign_orgDataResetLocks {l : OrgDataResetLock} :
    db.foreign org .orgDataResetLocks l = true ↔ l.orgId ≠ org := by
  simp [foreign, owner, TableName.ref]

/-- The reset lock of an organisation goes with it. -/
theorem purged_orgDataResetLocks {db₁ : Tenancy} (hv : Schema.Valid (S := tenancy) db₁)
    (hpurged : Schema.Purged (S := tenancy) (db.foreign org) db₁ .organizations) :
    Schema.Purged (S := tenancy) (db.foreign org) db₁ .orgDataResetLocks := by
  intro l hl
  refine foreign_orgDataResetLocks.mpr fun horg => ?_
  have hsome := hv ⟨.orgDataResetLocks, .orgId, .organizations, .cascade⟩
    (show _ ∈ foreignKeys by decide) l hl l.orgId rfl
  obtain ⟨o, ho⟩ := Option.isSome_iff_exists.mp hsome
  refine foreign_organizations.mp (hpurged o (Table.get?_mem ho)) ?_
  exact (Table.get?_id ho).trans horg

/-- Once its data is wiped, an organisation can be deleted. -/
theorem deleteShell_ok (hv : Schema.Valid (S := tenancy) db)
    (hiso : db.Isolated org removedTables)
    (hwiped : Schema.Progress (S := tenancy) (db.foreign org) (· ∈ shellRest) db (db.emptied org)) :
    ∃ db', (db.emptied org).deleteShell org = .ok db' ∧ Removed db org db' := by
  have hdata : ∀ t ∈ dataTables, Schema.Purged (S := tenancy) (db.foreign org) (db.emptied org) t :=
    fun t ht r hr => by
      rw [emptied_of_mem db org ht] at hr
      exact (List.mem_filter.mp hr).2
  have htop : Schema.Topological tenancy.keys dataTables shellTables := by decide
  obtain ⟨bare, hbare, hprogress, hpurged⟩ := htop.erase_all
    (fun t ht => deleteByOrg_erases (removal_removedTables db org)
      ((by decide : ∀ t ∈ shellTables, t ∈ removedTables) t ht)
      ((by decide : ∀ t ∈ shellTables, t ∈ orgTables) t ht))
    (hwiped.apart hiso) hdata
  have hbefore : ∀ c ∈ dataTables ++ shellTables,
      Schema.Purged (S := tenancy) (db.foreign org) bare c :=
    fun c hc => hpurged c (List.mem_append.mp hc)
  have hfree := Schema.unreferenced_of_purged (t := .organizations) (by decide) hbefore
  obtain ⟨hok, hprogress'⟩ := (hprogress.apart (hwiped.apart hiso)).exists_delete
    (ServiceError.database "IntegrityError") (removal_removedTables db org) (t := .organizations)
    (p := fun o => o.id = org) (by decide)
    (fun o _ ho => by simpa [foreign, owner] using ho) hfree
  have horg := hprogress'.purged_of_deleted fun o _ ho => by simpa [foreign, owner] using ho
  set db' := Schema.deleted bare (Schema.onTable .organizations fun o => decide (o.id = org))
  have hrest := hprogress.trans hprogress'
  have hall : Schema.Progress (S := tenancy) (db.foreign org) (fun _ => False) db db' :=
    (hwiped.mono fun _ => False.elim).trans (hrest.mono fun _ => False.elim)
  refine ⟨db', ?_, ?_⟩
  · rw [deleteShell, bind_of_ok hbare]
    exact hok
  · refine
      { data := fun t ht => ?_
        shell := fun t ht => hall.eq_filter ?_
        others := fun t _ => ⟨hall.next t, hall.rows t⟩ }
    · rcases ht with ht | rfl
      · rw [emptied_of_mem db org ht]
        exact hall.eq_filter (hrest.purged (hdata t ht))
      · exact hrest.same _ (by decide)
    · rcases ht with ht | rfl | rfl
      · exact hprogress'.purged (hpurged t (.inr ht))
      · exact horg
      · exact purged_orgDataResetLocks (hall.valid hv) horg

theorem deleteShell_sound (h : db.deleteShell org = .ok db') : Sound db db' := by
  unfold deleteShell at h
  rw [bind_eq_ok] at h
  obtain ⟨bare, hbare, hdelete⟩ := h
  exact (foldlM_sound deleteByOrg_sound (by decide) hbare).trans
    (deleteWhere_sound (by decide) hdelete)

/-- The tables of an organisation that is removed keep the rows of the others. -/
theorem Removed.eq_filter (h : Removed db org db') {t : TableName} (ht : t ∈ removedTables) :
    db' t = (db t).filter (db.foreign org t) := by
  rcases List.mem_append.mp ht with ht | ht
  · rcases List.mem_append.mp ht with ht | ht
    · rw [h.data t (.inl ht), emptied_of_mem db org ht]
    · exact h.shell t (.inl ht)
  · exact h.shell t (.inr (by simpa using ht))

theorem Removed.mem_of_foreign (h : Removed db org db') (t : TableName) (r : tenancy.RowOf t)
    (hr : r ∈ (db t).rows) (hforeign : db.foreign org t r = true) : r ∈ (db' t).rows := by
  have hwhere : t ∈ removedTables ∨ t = .tagDictionary ∨ t = .auditEvents ∨
      t = .feedbackEntries := by
    cases t
    all_goals decide
  rcases hwhere with ht | rfl | ht
  · rw [h.eq_filter ht]
    exact List.mem_filter.mpr ⟨hr, hforeign⟩
  · exact absurd hforeign (by simp [foreign, owner])
  · have hmem := List.mem_filter.mpr ⟨hr, hforeign⟩
    rw [← (h.others t ht).2] at hmem
    exact List.mem_of_mem_filter hmem

/-- The deletion of an organisation does what it is for exactly when the organisation has no import
batch and no row of another organisation refers to its rows. -/
theorem deleteOrgCascade_iff {o : Organization} (hv : Schema.Valid (S := tenancy) db)
    (ho : (db .organizations).get? org = some o) :
    (∃ db', db.deleteOrgCascade org = .ok db' ∧ Removed db org db') ↔
      db.NoImportBatch org ∧ db.Isolated org removedTables := by
  have hrun : db.deleteOrgCascade org = db.wipeOrgData org >>= (deleteShell · org) := by
    unfold deleteOrgCascade deleteShell
    rw [bind_of_ok (orRaise_eq_ok.mpr ho)]
  rw [hrun]
  constructor
  · rintro ⟨db', h, hremoved⟩
    obtain ⟨wiped, hwiped, hshell⟩ := bind_eq_ok.mp h
    exact complete_of_sound hv ((wipeOrgData_sound hwiped).trans (deleteShell_sound hshell))
      (by decide) (fun t ht => hremoved.eq_filter ht) hremoved.mem_of_foreign
  · rintro ⟨hbatch, hiso⟩
    obtain ⟨hok, hwiped⟩ := wipeOrgData_ok hv (fun fk hfk ht => hiso fk hfk
      ((by decide : ∀ t ∈ wipedTables, t ∈ removedTables) fk.parent ht)) hbatch
    rw [bind_of_ok hok]
    exact deleteShell_ok hv hiso hwiped

/-- An organisation that contributed to a dictionary tag at most once lowers its count by one if it
did, and not at all if it did not. -/
theorem emptied_tagDictionary (hunique : (db.contributedIds org).Nodup) :
    db.emptied org .tagDictionary = db.mapDictionary (fun e =>
      if e.id ∈ db.contributedIds org then e.contributorOrgCount - 1 else e.contributorOrgCount)
        .tagDictionary := by
  have hcount : ∀ i, ((db.contributedIds org).count i : ℤ) =
      if i ∈ db.contributedIds org then 1 else 0 := fun i => by
    rw [hunique.count]
    split_ifs
    · rfl
    · rfl
  refine (if_neg (by decide)).trans ?_
  congr 1
  funext e
  rw [hcount]
  split_ifs
  · rfl
  · exact sub_zero _

/-! ### The three operations -/

/-- The wipe, the reset and the deletion of an organisation do what they are for exactly when the
organisation has no import batch, no row of another organisation refers to its rows, and the batches
of the reset have at least one row unless there is nothing to delete in batches. -/
theorem org_data_removed_iff {o : Organization} {batchSize : ℕ}
    (hv : Schema.Valid (S := tenancy) db) (ho : (db .organizations).get? org = some o) :
    (db.wipeOrgData org = .ok (db.emptied org) ∧
      db.resetOrgData org batchSize = .ok ((db.emptied org).seedOrgDefaults org) ∧
        ∃ db', db.deleteOrgCascade org = .ok db' ∧ Removed db org db') ↔
      db.NoImportBatch org ∧ db.Isolated org removedTables ∧
        (1 ≤ batchSize ∨ db.NothingInBatches org) := by
  rw [wipeOrgData_eq_ok_iff hv, resetOrgData_eq_ok_iff hv, deleteOrgCascade_iff hv ho]
  constructor
  · rintro ⟨-, ⟨-, -, hsize⟩, hbatch, hiso⟩
    exact ⟨hbatch, hiso, hsize⟩
  · rintro ⟨hbatch, hiso, hsize⟩
    have hdata : db.Isolated org dataTables := fun fk hfk ht => hiso fk hfk
      (List.mem_append_left _ (List.mem_append_left _ ht))
    exact ⟨⟨hbatch, hdata⟩, ⟨hbatch, hdata, hsize⟩, hbatch, hiso⟩

end

/-! ### Examples -/

def sampleFirstDay : Date := .of 2024 1 1

/-- A transfer leg of the sample. -/
def sampleLeg (org link : ℕ) : Transaction where
  orgId := org
  accountId := org
  categoryId := 2 * org
  description := "to savings"
  amount := 500
  type := .expense
  linkedTransactionId := some link
  date := sampleFirstDay
  settledDate := some sampleFirstDay

/-- Two organisations with linked transactions, subcategories, plans, tags and a shared dictionary
tag. -/
def sampleTenancy : Tenancy
  | .organizations => (Table.empty.insert { name := "Casa" }).insert { name := "Loft" }
  | .users => (Table.empty.insert { orgId := 1, username := "ana", email := "ana@casa" }).insert
      { orgId := 2, username := "rui", email := "rui@loft" }
  | .orgDataResetLocks => Table.empty.insert { orgId := 1, acquiredByUserId := 1 }
  | .auditEvents => Table.empty.insert
      { eventType := "org.reset", actorUserId := some 1, targetOrgId := some 1 }
  | .accountTypes => (Table.empty.insert
      { id := 0, orgId := 1, slug := none, name := "Bank" }).insert
      { id := 0, orgId := 2, slug := none, name := "Bank" }
  | .accounts => (Table.empty.insert
      { orgId := 1, accountTypeId := 1, name := "Main",
        openingBalanceDate := sampleFirstDay }).insert
      { orgId := 2, accountTypeId := 2, name := "Main", openingBalanceDate := sampleFirstDay }
  | .billingPeriods => Table.empty.insert { orgId := 1, startDate := sampleFirstDay }
  | .categories => (((Table.empty.insert { orgId := 1, name := "Home" }).insert
      { orgId := 1, parentId := some 1, name := "Rent" }).insert
      { orgId := 2, name := "Home" }).insert
      { orgId := 2, parentId := some 3, name := "Rent" }
  | .forecastPlans => Table.empty.insert { orgId := 1, billingPeriodId := 1 }
  | .forecastPlanItems => Table.empty.insert
      { planId := 1, orgId := 1, categoryId := 1, type := .expense, plannedAmount := 1000 }
  | .transactions => ((Table.empty.insert (sampleLeg 1 2)).insert (sampleLeg 1 1)).insert
      (sampleLeg 2 3)
  | .tags => (Table.empty.insert { orgId := 1, name := "food", nameNormalized := "food" }).insert
      { orgId := 2, name := "food", nameNormalized := "food" }
  | .transactionTags => (Table.empty.insert { transactionId := 1, tagId := 1 }).insert
      { transactionId := 3, tagId := 2 }
  | .tagDictionary => Table.empty.insert { nameNormalized := "food", contributorOrgCount := 2 }
  | .tagDictionaryContributors =>
      (Table.empty.insert { dictionaryTagId := 1, contributorOrgId := 1 }).insert
      { dictionaryTagId := 1, contributorOrgId := 2 }
  | _ => Table.empty

theorem org_data_removed_of_sampleTenancy :
    sampleTenancy.wipeOrgData 1 = .ok (sampleTenancy.emptied 1) ∧
      sampleTenancy.resetOrgData 1 2 =
        .ok ((sampleTenancy.emptied 1).seedOrgDefaults 1) ∧
        ∃ db', sampleTenancy.deleteOrgCascade 1 = .ok db' ∧ Removed sampleTenancy 1 db' :=
  (org_data_removed_iff (by decide +kernel) rfl).mpr (by decide +kernel)

/-- The same with an import batch into the account of the first organisation. -/
def sampleImported : Tenancy
  | .importBatches => Table.empty.insert
      { orgId := 1, accountId := 1, sourceFormat := .csv, fileName := "may.csv",
        createdByUserId := 1 }
  | t => sampleTenancy t

/-- The batch refers to the account, so the account is not deleted, and no operation ends. -/
theorem not_org_data_removed_of_sampleImported :
    Schema.Valid (S := tenancy) sampleImported ∧
      ¬(sampleImported.wipeOrgData 1 = .ok (sampleImported.emptied 1) ∧
        sampleImported.resetOrgData 1 2 = .ok ((sampleImported.emptied 1).seedOrgDefaults 1) ∧
          ∃ db', sampleImported.deleteOrgCascade 1 = .ok db' ∧ Removed sampleImported 1 db') ∧
      (sampleImported.wipeOrgData 1).isOk = false ∧
        (sampleImported.resetOrgData 1 2).isOk = false ∧
          (sampleImported.deleteOrgCascade 1).isOk = false := by
  have hwipe : (sampleImported.wipeOrgData 1).isOk = false := by decide +kernel
  refine ⟨by decide +kernel, ?_, hwipe, by decide +kernel, by decide +kernel⟩
  rintro ⟨hok, -, -⟩
  rw [hok] at hwipe
  exact absurd hwipe (by simp [Except.isOk, Except.toBool])

end Tenancy

end Pfv
