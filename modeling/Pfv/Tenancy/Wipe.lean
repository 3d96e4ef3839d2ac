import Pfv.Services.OrgData

/-!
# Wiping the data of an organisation

The wipe and the reset empty the tables children first. Where no row of another organisation refers
to a row of this one, and the organisation has no import batch, every statement of theirs succeeds:
the tables before it have lost every row of the organisation that could refer to the rows it
deletes.

## Main definitions

* `Isolated`: the rows of other organisations refer to no row of this one.
* `NoImportBatch`: the organisation has no import batch.

## Main results

* `deleteByOrg_erases`, `batchDeleteByPk_erases`: a delete, at once or in batches, purges a table.
* `wipeOrgData_ok`, `wipeInBatches_ok`: a wipe leaves the database without the data of the
  organisation.
-/

namespace Pfv

namespace Tenancy

/-- The rows of other organisations refer to no row of this one in the given tables. -/
def Isolated (db : Tenancy) (org : ℕ) (tables : List TableName) : Prop :=
  Schema.Apart (db.foreign org) (· ∈ tables) db

instance (db : Tenancy) (org : ℕ) (tables : List TableName) : Decidable (db.Isolated org tables) :=
  inferInstanceAs (Decidable (Schema.Apart _ (· ∈ tables) db))

/-- The organisation has no import batch. -/
def NoImportBatch (db : Tenancy) (org : ℕ) : Prop :=
  ∀ b : ImportBatch, b ∈ (db .importBatches).rows → b.orgId ≠ org

instance (db : Tenancy) (org : ℕ) : Decidable (db.NoImportBatch org) :=
  inferInstanceAs (Decidable (∀ b ∈ (db .importBatches).rows, ImportBatch.orgId b ≠ org))

section

variable {db db' : Tenancy} {org : ℕ}

/-! ### The rows of other organisations -/

/-- A row stays a row of another organisation when a reference of it was cleared. -/
theorem foreign_clear (db : Tenancy) (org : ℕ) (t : TableName) (k : Column) (r : tenancy.RowOf t)
    (h : db.foreign org t (tenancy.clear t k r) = true) : db.foreign org t r = true := by
  cases t
  all_goals
    cases k
    all_goals first | exact h | exact absurd h (by simp [foreign, owner, TableName.clear,
      TableName.ref])

/-- The tables with an organisation column that is never null. -/
def orgTables : List TableName :=
  childrenFirst ++ [.categories, .tags, .importBatches] ++ shellTables

/-- Where the organisation column is never null, a row belongs to the organisation or to another. -/
theorem foreign_eq_false_iff {t : TableName} (ht : t ∈ orgTables) (r : tenancy.RowOf t) :
    db.foreign org t r = false ↔ t.ref r .orgId = some org := by
  cases t
  all_goals first
    | exact absurd ht (by decide)
    | simp [foreign, owner, TableName.ref]

/-- The tables of the first part of a wipe. -/
def firstTables : List TableName :=
  childrenFirst ++ [.categories, .transactionTags]

/-- The tables a wipe empties. -/
def wipedTables : List TableName :=
  firstTables ++ [.tagDictionaryContributors, .tags]

theorem removal (db : Tenancy) (org : ℕ) {doomed : List TableName}
    (hclosed : ∀ fk ∈ foreignKeys, fk.onDelete = .cascade → fk.parent ∈ doomed → fk.child ∈ doomed)
    {fixed : List TableName} (hfixed : ∀ t ∈ fixed, t ∉ doomed)
    (hcleared : ∀ fk ∈ foreignKeys, fk.child ∈ fixed → fk.onDelete = .setNull →
      fk.parent ∉ doomed) :
    Schema.Removal (S := tenancy) (db.foreign org) (· ∈ doomed) (· ∈ fixed) where
  closed := hclosed
  not_doomed := hfixed
  not_cleared := hcleared
  clear := foreign_clear db org
  reach := by decide

variable {doomed fixed : List TableName}

/-- The delete of the rows of an organisation purges a table. -/
theorem deleteByOrg_erases
    (hrem : Schema.Removal (S := tenancy) (db.foreign org) (· ∈ doomed) (· ∈ fixed))
    {t : TableName} (ht : t ∈ doomed) (horg : t ∈ orgTables) :
    Schema.Erases (db.foreign org) (· ∈ doomed) (· ∈ fixed) (deleteByOrg org) t := by
  intro db₁ hapart hfree
  have hp : ∀ r : tenancy.RowOf t, decide (t.ref r .orgId = some org) = true ↔
      db.foreign org t r = false := fun r => by
    rw [decide_eq_true_eq, foreign_eq_false_iff horg]
  obtain ⟨hok, hprogress⟩ := hapart.exists_delete (ServiceError.database "IntegrityError") hrem ht
    (fun r _ => (hp r).mp) hfree
  exact ⟨_, hok, hprogress, hprogress.purged_of_deleted fun r _ => (hp r).mpr⟩

theorem mem_ownRows {t : TableName} {r : tenancy.RowOf t} :
    r ∈ db.ownRows org t ↔ r ∈ (db t).rows ∧ t.ref r .orgId = some org := by
  simp [ownRows]

/-- A batch of positive size that is not full was the last. -/
theorem take_eq_self_of_length_lt {α : Type} {l : List α} {n : ℕ} (h : (l.take n).length < n) :
    l.take n = l := by
  rw [List.length_take] at h
  exact List.take_of_length_le (by omega)

/-- The loop of batches purges a table when it has a turn for every row. -/
theorem batchDeleteLoop_erases {batchSize : ℕ} (hsize : 1 ≤ batchSize)
    (hrem : Schema.Removal (S := tenancy) (db.foreign org) (· ∈ doomed) (· ∈ fixed))
    {t : TableName} (ht : t ∈ doomed) (horg : t ∈ orgTables) :
    ∀ (fuel : ℕ) (db₁ : Tenancy), (db₁ t).rows.length < fuel →
      Schema.Apart (db.foreign org) (· ∈ doomed) db₁ →
      Schema.Unreferenced (db.foreign org) db₁ t →
      ∃ db₂, batchDeleteLoop org batchSize t fuel db₁ = .ok db₂ ∧
        Schema.Progress (db.foreign org) (· ∈ fixed) db₁ db₂ ∧
          Schema.Purged (db.foreign org) db₂ t
  | 0, db₁, hfuel, _, _ => absurd hfuel (Nat.not_lt_zero _)
  | fuel + 1, db₁, hfuel, hapart, hfree => by
      rw [batchDeleteLoop]
      have hgoes : ∀ r : tenancy.RowOf t, t.ref r .orgId = some org →
          db.foreign org t r = false := fun r => (foreign_eq_false_iff horg r).mpr
      by_cases hnone : ((db₁.ownRows org t).take batchSize).map Row.id = []
      · -- No row of the organisation is left.
        rw [if_pos hnone]
        refine ⟨db₁, rfl, Schema.Progress.refl db₁, fun r hr => ?_⟩
        by_contra hstays
        have hown : r ∈ db₁.ownRows org t :=
          mem_ownRows.mpr ⟨hr, (foreign_eq_false_iff horg r).mp (by simpa using hstays)⟩
        have hempty := List.map_eq_nil_iff.mp hnone
        rw [List.take_eq_nil_iff] at hempty
        rcases hempty with h | h
        · omega
        · exact absurd (h ▸ hown) (by simp)
      · rw [if_neg hnone]
        set batch := (db₁.ownRows org t).take batchSize with hbatch
        have hmem : ∀ r ∈ (db₁ t).rows, Row.id r ∈ batch.map Row.id → r ∈ batch := by
          intro r hr hid
          obtain ⟨r', hr', hid'⟩ := List.mem_map.mp hid
          have hrow' := (mem_ownRows.mp (List.mem_of_mem_take hr')).1
          exact Table.get?_inj (Table.get?_of_mem hrow') (Table.get?_of_mem hr) hid' ▸ hr'
        obtain ⟨hok, hprogress⟩ :=
          hapart.exists_delete (ServiceError.database "IntegrityError") hrem ht
          (p := fun r => Row.id r ∈ batch.map Row.id)
          (fun r hr hid => hgoes r (mem_ownRows.mp
            (List.mem_of_mem_take (hmem r hr (of_decide_eq_true hid)))).2) hfree
        rw [deleteWhere, bind_of_ok hok]
        split_ifs with hlast
        · -- The batch was not full.
          rw [List.length_map] at hlast
          refine ⟨_, rfl, hprogress, hprogress.purged_of_deleted fun r hr hstays => ?_⟩
          have hown : r ∈ batch := by
            rw [hbatch, take_eq_self_of_length_lt hlast]
            exact mem_ownRows.mpr ⟨hr, (foreign_eq_false_iff horg r).mp hstays⟩
          exact decide_eq_true (List.mem_map_of_mem hown)
        · obtain ⟨r, hr⟩ := List.exists_mem_of_ne_nil batch fun h => hnone (by rw [h]; rfl)
          have hlt := Schema.length_deleted_lt
            (p := fun r => Row.id r ∈ batch.map Row.id)
            (mem_ownRows.mp (List.mem_of_mem_take hr)).1
            (decide_eq_true (List.mem_map_of_mem hr))
          obtain ⟨db₂, hloop, hprogress', hpurged⟩ :=
            batchDeleteLoop_erases hsize hrem ht horg fuel _
            (by omega) (hprogress.apart hapart) (hprogress.unreferenced hfree)
          exact ⟨db₂, hloop, hprogress.trans hprogress', hpurged⟩

/-- The batched delete of the rows of an organisation purges a table. -/
theorem batchDeleteByPk_erases {batchSize : ℕ} (hsize : 1 ≤ batchSize)
    (hrem : Schema.Removal (S := tenancy) (db.foreign org) (· ∈ doomed) (· ∈ fixed))
    {t : TableName} (ht : t ∈ doomed) (horg : t ∈ orgTables) :
    Schema.Erases (db.foreign org) (· ∈ doomed) (· ∈ fixed) (batchDeleteByPk org batchSize) t :=
  fun db₁ hapart hfree =>
    batchDeleteLoop_erases hsize hrem ht horg _ db₁ (Nat.lt_succ_self _) hapart hfree

/-! ### The first part of a wipe -/

theorem clearParents_of_ne (db : Tenancy) (org : ℕ) {t : TableName} (h : t ≠ .categories) :
    db.clearParents org t = db t := by
  cases t
  all_goals first
    | rfl
    | exact absurd rfl h

theorem mem_clearParents {c : Category} (h : c ∈ (db.clearParents org .categories).rows) :
    ∃ c₀ : Category, c₀ ∈ (db .categories).rows ∧ asRoot org c₀ = c :=
  List.mem_map.mp h

theorem asRoot_of_ne {c : Category} (h : c.orgId ≠ org) : asRoot org c = c :=
  if_neg h

theorem asRoot_orgId (c : Category) : (asRoot org c).orgId = c.orgId := by
  unfold asRoot
  split_ifs
  · rfl
  · rfl

/-- A root of the organisation has no parent, and no other reference is changed. -/
theorem ref_asRoot {c : Category} {k : Column} {i : ℕ}
    (h : TableName.ref .categories (asRoot org c) k = some i) :
    TableName.ref .categories c k = some i := by
  unfold asRoot at h
  split_ifs at h
  · cases k
    all_goals first
      | exact h
      | exact absurd h (by simp [TableName.ref])
  · exact h

/-- Clearing the parents changes rows of the organisation alone. -/
theorem clearParents_progress (db db₁ : Tenancy) (org : ℕ) (fixed : List TableName)
    (hfixed : .categories ∉ fixed) :
    Schema.Progress (S := tenancy) (db.foreign org) (· ∈ fixed) db₁ (db₁.clearParents org) := by
  have hcases : ∀ t, t = .categories ∨ db₁.clearParents org t = db₁ t := fun t => by
    by_cases h : t = .categories
    · exact .inl h
    · exact .inr (clearParents_of_ne db₁ org h)
  have hstays : ∀ c : Category, db.foreign org .categories c = true ↔ c.orgId ≠ org := fun c => by
    simp [foreign, owner, TableName.ref]
  refine
    { next := fun t => ?_
      rows := fun t => ?_
      origin := fun t r' hr' => ?_
      same := fun t ht => clearParents_of_ne db₁ org fun h => hfixed (h ▸ ht)
      valid := fun hv => hv.of_rows (fun t i hi => ?_) fun t r' hr' => ?_ }
  · rcases hcases t with rfl | h
    · rfl
    · rw [h]
  · rcases hcases t with rfl | h
    · change ((db₁ .categories).rows.map (asRoot org)).filter _ = (db₁ .categories).rows.filter _
      rw [List.filter_map]
      have hpred : ∀ c : Category, (db.foreign org .categories ∘ asRoot org) c =
          db.foreign org .categories c := fun c => by
        rw [Bool.eq_iff_iff, Function.comp_apply, hstays, hstays, asRoot_orgId]
      rw [funext hpred]
      exact (List.map_congr_left fun c hc =>
        asRoot_of_ne ((hstays c).mp (List.mem_filter.mp hc).2)).trans (List.map_id _)
    · rw [h]
  · rcases hcases t with rfl | h
    · obtain ⟨c, hc, rfl⟩ := mem_clearParents hr'
      exact ⟨c, hc, (id_asRoot org c).symm, fun hc => asRoot_of_ne ((hstays c).mp hc)⟩
    · exact ⟨r', h ▸ hr', rfl, fun _ => rfl⟩
  · rcases hcases t with rfl | h
    · change ((db₁ .categories).mapRows (asRoot org) (id_asRoot org)).get? i |>.isSome
      rw [Table.get?_mapRows, Option.isSome_map]
      exact hi
    · rwa [h]
  · rcases hcases t with rfl | h
    · obtain ⟨c, hc, rfl⟩ := mem_clearParents hr'
      exact ⟨c, hc, fun k i hk => ref_asRoot hk⟩
    · exact ⟨r', h ▸ hr', fun _ _ hk => hk⟩

/-- The tables the first part of a wipe leaves as they are. -/
def restTables : List TableName :=
  [.organizations, .users, .invitations, .orgSettings, .orgFeatureOverrides, .orgDataResetLocks,
    .subscriptions, .auditEvents, .feedbackEntries, .importBatches, .tags, .tagDictionary,
    .tagDictionaryContributors]

theorem removal_firstTables (db : Tenancy) (org : ℕ) :
    Schema.Removal (S := tenancy) (db.foreign org) (· ∈ firstTables) (· ∈ restTables) :=
  removal db org (by decide) (by decide) (by decide)

/-- Emptying tables children first, clearing the parents and emptying the categories. -/
def eraseFirst (erase : Tenancy → TableName → Except ServiceError Tenancy) (db : Tenancy)
    (org : ℕ) : Except ServiceError Tenancy := do
  let childless ← childrenFirst.foldlM erase db
  erase (childless.clearParents org) .categories

/-- Without import batches, and without references from other organisations, the tables from the
transactions to the categories can be emptied. -/
theorem eraseFirst_ok (erase : Tenancy → TableName → Except ServiceError Tenancy)
    (herase : ∀ t ∈ childrenFirst ++ [.categories],
      Schema.Erases (S := tenancy) (db.foreign org) (· ∈ firstTables) (· ∈ restTables) erase t)
    (hiso : db.Isolated org firstTables) (hbatch : db.NoImportBatch org) :
    ∃ db₁, eraseFirst erase db org = .ok db₁ ∧
      Schema.Progress (db.foreign org) (· ∈ restTables) db db₁ ∧
      ∀ t ∈ childrenFirst ++ [.categories], Schema.Purged (db.foreign org) db₁ t := by
  have hbatches : Schema.Purged (db.foreign org) db .importBatches := fun b hb => by
    have : b.orgId ≠ org := hbatch b hb
    simp [foreign, owner, TableName.ref, this]
  have htop : Schema.Topological tenancy.keys [.importBatches] childrenFirst := by decide
  obtain ⟨childless, hchildless, hprogress, hpurged⟩ := htop.erase_all
    (fun t ht => herase t (List.mem_append_left _ ht)) hiso
    fun c hc => List.mem_singleton.mp hc ▸ hbatches
  have hcleared := hprogress.trans
    (clearParents_progress db childless org restTables (by decide))
  -- The categories of the organisation have no parent any more.
  have hfree : Schema.Unreferenced (db.foreign org) (clearParents childless org) .categories := by
    intro fk hfk hrestrict hparent r hr
    by_cases hself : fk.child = .categories
    · obtain ⟨child, column, parent, rule⟩ := fk
      obtain rfl : child = .categories := hself
      obtain rfl : parent = .categories := hparent
      obtain rfl : rule = .restrict := hrestrict
      have hcolumn : column = .parentId :=
        (by decide : ∀ fk ∈ foreignKeys, fk.child = .categories → fk.parent = .categories →
          fk.column = .parentId) _ hfk rfl rfl
      subst hcolumn
      obtain ⟨c, hc, rfl⟩ := mem_clearParents hr
      by_cases horg : c.orgId = org
      · right
        unfold asRoot
        rw [if_pos horg]
        rfl
      · left
        rw [asRoot_of_ne horg]
        simp [foreign, owner, TableName.ref, horg]
    · have hdone : fk.child ∈ childrenFirst :=
        (by decide : ∀ fk ∈ foreignKeys, fk.onDelete = .restrict → fk.parent = .categories →
          fk.child ≠ .categories → fk.child ∈ childrenFirst) fk hfk hrestrict hparent hself
      rw [clearParents_of_ne childless org hself] at hr
      exact .inl (hpurged fk.child (.inr hdone) r hr)
  obtain ⟨db₁, herased, hprogress', hcategories⟩ :=
    herase .categories (by decide) _ (hcleared.apart hiso) hfree
  refine ⟨db₁, ?_, hcleared.trans hprogress', fun t ht => ?_⟩
  · rw [eraseFirst, bind_of_ok hchildless]
    exact herased
  · rcases List.mem_append.mp ht with ht | ht
    · refine hprogress'.purged fun r hr => ?_
      rw [clearParents_of_ne childless org fun h => by subst h; revert ht; decide] at hr
      exact hpurged t (.inr ht) r hr
    · obtain rfl := List.mem_singleton.mp ht
      exact hcategories

/-! ### The tags and the dictionary -/

theorem mapDictionary_of_ne (db : Tenancy) (f : TagDictionary → ℤ) {t : TableName}
    (h : t ≠ .tagDictionary) : db.mapDictionary f t = db t := by
  cases t
  all_goals first
    | rfl
    | exact absurd rfl h

/-- Changing the counts of the dictionary changes no row of an organisation. -/
theorem mapDictionary_progress (db db₁ : Tenancy) (org : ℕ) (fixed : List TableName)
    (f : TagDictionary → ℤ) (hfixed : .tagDictionary ∉ fixed) :
    Schema.Progress (S := tenancy) (db.foreign org) (· ∈ fixed) db₁ (db₁.mapDictionary f) := by
  have hcases : ∀ t, t = .tagDictionary ∨ db₁.mapDictionary f t = db₁ t := fun t => by
    by_cases h : t = .tagDictionary
    · exact .inl h
    · exact .inr (mapDictionary_of_ne db₁ f h)
  have hnobody : ∀ e, db.foreign org .tagDictionary e = false := fun _ => rfl
  refine
    { next := fun t => ?_
      rows := fun t => ?_
      origin := fun t r' hr' => ?_
      same := fun t ht => mapDictionary_of_ne db₁ f fun h => hfixed (h ▸ ht)
      valid := fun hv => hv.of_rows (fun t i hi => ?_) fun t r' hr' => ?_ }
  · rcases hcases t with rfl | h
    · rfl
    · rw [h]
  · rcases hcases t with rfl | h
    · rw [List.filter_eq_nil_iff.mpr fun e _ => by simp [hnobody e],
        List.filter_eq_nil_iff.mpr fun e _ => by simp [hnobody e]]
    · rw [h]
  · rcases hcases t with rfl | h
    · obtain ⟨e, he, rfl⟩ := List.mem_map.mp hr'
      exact ⟨e, he, rfl, fun hstays => by simp [hnobody e] at hstays⟩
    · exact ⟨r', h ▸ hr', rfl, fun _ => rfl⟩
  · rcases hcases t with rfl | h
    · rw [mapDictionary, Table.get?_mapRows, Option.isSome_map]
      exact hi
    · rwa [h]
  · rcases hcases t with rfl | h
    · obtain ⟨e, he, rfl⟩ := List.mem_map.mp hr'
      exact ⟨e, he, fun k i hk => hk⟩
    · exact ⟨r', h ▸ hr', fun _ _ hk => hk⟩

/-- Lowering the counts one after the other lowers each as often as it is named. -/
theorem foldl_decrement : ∀ (ids : List ℕ) (db : Tenancy),
    ids.foldl (fun db id => db.mapDictionary fun e =>
      if e.id = id then e.contributorOrgCount - 1 else e.contributorOrgCount) db =
        db.mapDictionary fun e => e.contributorOrgCount - ids.count e.id
  | [], db => by
      funext t
      by_cases h : t = .tagDictionary
      · subst h
        refine Table.ext ?_ rfl
        simp [mapDictionary, Table.mapRows]
      · rw [mapDictionary_of_ne _ _ h]
        rfl
  | i :: ids, db => by
      rw [List.foldl_cons, foldl_decrement ids]
      funext t
      by_cases h : t = .tagDictionary
      · subst h
        refine Table.ext ?_ rfl
        simp only [mapDictionary, Table.mapRows, List.map_map]
        refine List.map_congr_left fun e _ => ?_
        rw [Function.comp_apply, List.count_cons]
        by_cases hi : e.id = i
        · simp only [hi, if_true, beq_self_eq_true]
          congr 1
          push_cast
          ring
        · simp [hi, Ne.symm hi]
      · rw [mapDictionary_of_ne _ _ h, mapDictionary_of_ne _ _ h, mapDictionary_of_ne _ _ h]

/-- The tables a wipe leaves as they are, beside the dictionary. -/
def shellRest : List TableName :=
  [.organizations, .users, .invitations, .orgSettings, .orgFeatureOverrides, .orgDataResetLocks,
    .subscriptions, .auditEvents, .feedbackEntries, .importBatches]

theorem removal_wipedTables (db : Tenancy) (org : ℕ) :
    Schema.Removal (S := tenancy) (db.foreign org) (· ∈ wipedTables)
      (· ∈ shellRest ++ [.tagDictionary]) :=
  removal db org (by decide) (by decide) (by decide)

/-- No restricting key leads to the tables of tags. -/
theorem unreferenced_tags (db₁ : Tenancy) {t : TableName}
    (ht : t ∈ [.transactionTags, .tagDictionaryContributors, .tags]) :
    Schema.Unreferenced (S := tenancy) (db.foreign org) db₁ t := by
  intro fk hfk hrestrict hparent
  exact absurd (hparent ▸ ht) ((by decide : ∀ fk ∈ foreignKeys, fk.onDelete = .restrict →
    fk.parent ∉ [TableName.transactionTags, .tagDictionaryContributors, .tags]) fk hfk hrestrict)

theorem emptied_of_mem (db : Tenancy) (org : ℕ) {t : TableName} (ht : t ∈ dataTables) :
    db.emptied org t = (db t).filter (db.foreign org t) :=
  if_pos ht

theorem emptied_of_not_mem (db : Tenancy) (org : ℕ) {t : TableName} (ht : t ∉ dataTables)
    (h : t ≠ .tagDictionary) : db.emptied org t = db t :=
  (if_neg ht).trans (mapDictionary_of_ne db _ h)

/-- The tags of the organisation go from all transactions. -/
theorem deleteTransactionTags_ok {db₁ : Tenancy} (hv : Schema.Valid (S := tenancy) db)
    (hiso : db.Isolated org firstTables)
    (hprogress : Schema.Progress (S := tenancy) (db.foreign org) (· ∈ restTables) db db₁) :
    ∃ db₂ : Tenancy, db₁.deleteTransactionTags org = .ok db₂ ∧
      Schema.Progress (S := tenancy) (db.foreign org) (· ∈ restTables) db₁ db₂ ∧
        Schema.Purged (S := tenancy) (db.foreign org) db₂ .transactionTags := by
  have htags : db₁ .tags = db .tags := hprogress.same .tags (by decide)
  obtain ⟨hok, hprogress'⟩ := (hprogress.apart hiso).exists_delete
    (ServiceError.database "IntegrityError") (removal_firstTables db org) (t := .transactionTags)
    (p := fun j => ((db₁ .tags).get? j.tagId).any fun g : Tag => g.orgId = org) (by decide)
    (fun j hj hp => by
      rw [htags] at hp
      cases hg : (db .tags).get? j.tagId with
      | none => simp [hg] at hp
      | some g => simpa [foreign, owner, hg] using hp)
    (unreferenced_tags db₁ (by decide))
  refine ⟨_, hok, hprogress', hprogress'.purged_of_deleted fun j hj hstays => ?_⟩
  -- The tag is there, so it is one of the organisation.
  have hsome := hprogress.valid hv ⟨.transactionTags, .tagId, .tags, .cascade⟩
    (show _ ∈ foreignKeys by decide) j hj j.tagId rfl
  obtain ⟨g, hg⟩ := Option.isSome_iff_exists.mp hsome
  rw [htags] at hg
  rw [htags, hg]
  simpa [foreign, owner, hg] using hstays

/-- The second part of a wipe leaves the database without the data of the organisation. -/
theorem wipeTags_ok {db₁ : Tenancy} (hv : Schema.Valid (S := tenancy) db)
    (hiso : db.Isolated org wipedTables) (hbatch : db.NoImportBatch org)
    (hprogress : Schema.Progress (S := tenancy) (db.foreign org) (· ∈ restTables) db db₁)
    (hpurged : ∀ t ∈ childrenFirst ++ [.categories],
      Schema.Purged (S := tenancy) (db.foreign org) db₁ t) :
    db₁.wipeTags org = .ok (db.emptied org) ∧
      Schema.Progress (S := tenancy) (db.foreign org) (· ∈ shellRest) db (db.emptied org) := by
  have hfirst : db.Isolated org firstTables := fun fk hfk ht =>
    hiso fk hfk (List.mem_append_left _ ht)
  obtain ⟨db₂, hok₂, hprogress₂, hjoins⟩ := deleteTransactionTags_ok hv hfirst hprogress
  have hto₂ := hprogress.trans hprogress₂
  have hcontributors : db₂ .tagDictionaryContributors = db .tagDictionaryContributors :=
    hto₂.same _ (by decide)
  have hids : db₂.contributedIds org = db.contributedIds org := by
    unfold contributedIds
    rw [hcontributors]
  set counted := db₂.mapDictionary fun e =>
    e.contributorOrgCount - (db.contributedIds org).count e.id with hcounted
  have hto₃ : Schema.Progress (S := tenancy) (db.foreign org) (· ∈ shellRest) db counted :=
    (hto₂.mono (by decide)).trans (mapDictionary_progress db db₂ org shellRest _ (by decide))
  obtain ⟨hok₄, hprogress₄⟩ := (hto₃.apart hiso).exists_delete
    (ServiceError.database "IntegrityError") (removal_wipedTables db org)
    (t := .tagDictionaryContributors) (p := fun c => c.contributorOrgId = org) (by decide)
    (fun c _ hc => by simpa [foreign, owner] using hc) (unreferenced_tags counted (by decide))
  set db₄ := Schema.deleted counted (Schema.onTable .tagDictionaryContributors fun c =>
    decide (c.contributorOrgId = org)) with hdb₄
  have hpurged₄ : Schema.Purged (S := tenancy) (db.foreign org) db₄ .tagDictionaryContributors :=
    hprogress₄.purged_of_deleted fun c _ hc => by simpa [foreign, owner] using hc
  obtain ⟨db₅, hok₅, hprogress₅, hpurged₅⟩ :=
    deleteByOrg_erases (removal_wipedTables db org) (t := .tags) (by decide) (by decide) db₄
      ((hto₃.trans (hprogress₄.mono (by decide))).apart hiso) (unreferenced_tags db₄ (by decide))
  have hto₅ := hto₃.trans ((hprogress₄.trans hprogress₅).mono
    (show ∀ t, t ∈ shellRest → t ∈ shellRest ++ [.tagDictionary] from
      fun t => List.mem_append_left _))
  have hrun : db₁.wipeTags org = .ok db₅ := by
    unfold wipeTags decrementDictionaryCountsForOrg
    rw [bind_of_ok hok₂, hids, foldl_decrement, deleteWhere, bind_of_ok hok₄]
    exact hok₅
  suffices hempty : db₅ = db.emptied org by
    rw [← hempty]
    exact ⟨hrun, hto₅⟩
  -- Every data table has been purged, and no other table but the dictionary was changed.
  have hlate : ∀ t, Schema.Purged (S := tenancy) (db.foreign org) counted t →
      Schema.Purged (S := tenancy) (db.foreign org) db₅ t := fun t ht =>
    hprogress₅.purged (hprogress₄.purged ht)
  have hearly : ∀ t, t ≠ .tagDictionary → Schema.Purged (S := tenancy) (db.foreign org) db₂ t →
      Schema.Purged (S := tenancy) (db.foreign org) db₅ t := fun t hne ht =>
    hlate t fun r hr => ht r (by rwa [hcounted, mapDictionary_of_ne _ _ hne] at hr)
  funext t
  by_cases hdictionary : t = .tagDictionary
  · subst hdictionary
    have hsame : db₅ .tagDictionary = counted .tagDictionary :=
      ((hprogress₄.trans hprogress₅).same _ (by decide))
    have hbefore : db₂ .tagDictionary = db .tagDictionary := hto₂.same _ (by decide)
    have hempty : db.emptied org .tagDictionary = db.mapDictionary (fun e =>
        e.contributorOrgCount - (db.contributedIds org).count e.id) .tagDictionary :=
      if_neg (by decide)
    rw [hsame, hcounted, hempty]
    simp only [mapDictionary, hbefore]
  by_cases hdata : t ∈ dataTables
  · rw [emptied_of_mem db org hdata]
    refine hto₅.eq_filter ?_
    have hwhere : t ∈ childrenFirst ++ [.categories] ∨ t = .transactionTags ∨
        t = .tagDictionaryContributors ∨ t = .tags ∨ t = .importBatches :=
      (by decide : ∀ t ∈ dataTables, t ∈ childrenFirst ++ [.categories] ∨ t = .transactionTags ∨
        t = .tagDictionaryContributors ∨ t = .tags ∨ t = .importBatches) t hdata
    rcases hwhere with ht | rfl | rfl | rfl | rfl
    · exact hearly t hdictionary (hprogress₂.purged (hpurged t ht))
    · exact hearly _ hdictionary hjoins
    · exact hprogress₅.purged hpurged₄
    · exact hpurged₅
    · intro b hb
      rw [hto₅.same .importBatches (by decide)] at hb
      have : b.orgId ≠ org := hbatch b hb
      simp [foreign, owner, TableName.ref, this]
  · have hrest : t ∈ shellRest := by
      revert hdictionary hdata
      cases t
      all_goals decide
    rw [emptied_of_not_mem db org hdata hdictionary]
    exact hto₅.same t hrest

/-- A wipe empties the data tables when the organisation has no import batch and no row of another
organisation refers to its rows. -/
theorem wipeOrgData_ok (hv : Schema.Valid (S := tenancy) db) (hiso : db.Isolated org wipedTables)
    (hbatch : db.NoImportBatch org) : db.wipeOrgData org = .ok (db.emptied org) ∧
      Schema.Progress (S := tenancy) (db.foreign org) (· ∈ shellRest) db (db.emptied org) := by
  obtain ⟨db₁, hok₁, hprogress, hpurged⟩ := eraseFirst_ok (deleteByOrg org)
    (fun t ht => deleteByOrg_erases (removal_firstTables db org)
      ((by decide : ∀ t ∈ childrenFirst ++ [TableName.categories], t ∈ firstTables) t ht)
      ((by decide : ∀ t ∈ childrenFirst ++ [TableName.categories], t ∈ orgTables) t ht))
    (fun fk hfk ht => hiso fk hfk (List.mem_append_left _ ht)) hbatch
  have hrun : db.wipeOrgData org = eraseFirst (deleteByOrg org) db org >>= (wipeTags · org) := by
    unfold wipeOrgData eraseFirst
    rw [bind_assoc]
  rw [hrun, bind_of_ok hok₁]
  exact wipeTags_ok hv hiso hbatch hprogress hpurged

/-- So does the wipe in batches of a positive size. -/
theorem wipeInBatches_ok {batchSize : ℕ} (hsize : 1 ≤ batchSize)
    (hv : Schema.Valid (S := tenancy) db) (hiso : db.Isolated org wipedTables)
    (hbatch : db.NoImportBatch org) :
    db.wipeInBatches org batchSize = .ok (db.emptied org) ∧
      Schema.Progress (S := tenancy) (db.foreign org) (· ∈ shellRest) db (db.emptied org) := by
  obtain ⟨db₁, hok₁, hprogress, hpurged⟩ := eraseFirst_ok (batchDeleteByPk org batchSize)
    (fun t ht => batchDeleteByPk_erases hsize (removal_firstTables db org)
      ((by decide : ∀ t ∈ childrenFirst ++ [TableName.categories], t ∈ firstTables) t ht)
      ((by decide : ∀ t ∈ childrenFirst ++ [TableName.categories], t ∈ orgTables) t ht))
    (fun fk hfk ht => hiso fk hfk (List.mem_append_left _ ht)) hbatch
  have hrun : db.wipeInBatches org batchSize =
      eraseFirst (batchDeleteByPk org batchSize) db org >>= (wipeTags · org) := by
    unfold wipeInBatches eraseFirst
    rw [bind_assoc]
  rw [hrun, bind_of_ok hok₁]
  exact wipeTags_ok hv hiso hbatch hprogress hpurged

end

end Tenancy

end Pfv
