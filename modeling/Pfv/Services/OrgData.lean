import Pfv.Models.Tenancy
import Pfv.Services.OrgBootstrap

/-!
# Wiping, resetting and deleting an organisation

The wipe of the data of an organisation and its reset (`backend/app/services/org_data_service.py`),
the deletion of the organisation (`backend/app/services/admin_orgs_service.py`) and the seed of the
system defaults (`backend/app/services/org_bootstrap_service.py`). A statement that a foreign key
refuses fails the operation. The reset commits between its statements, so a reset that fails leaves
what it deleted before deleted; the model says only that it failed. The row counts the operations
return are left out.

## Main definitions

* `wipeOrgData`, `resetOrgData`, `deleteOrgCascade`.
* `seedOrgDefaults`: the rows of a freshly registered organisation.
* `emptied`: what a wipe is for, in one step.
-/

namespace Pfv

namespace Tenancy

/-! ### Statements -/

/-- `delete(Model).where(...)`. -/
def deleteWhere (db : Tenancy) (t : TableName) (p : tenancy.RowOf t → Bool) :
    Except ServiceError Tenancy :=
  Schema.delete (.database "IntegrityError") db (Schema.onTable t p)

/-- `delete(Model).where(Model.org_id == org_id)`. -/
def deleteByOrg (org : ℕ) (db : Tenancy) (t : TableName) : Except ServiceError Tenancy :=
  db.deleteWhere t fun r => t.ref r .orgId = some org

/-- A category of the organisation as a root. -/
def asRoot (org : ℕ) (c : Category) : Category :=
  if c.orgId = org then { c with parentId := none } else c

theorem id_asRoot (org : ℕ) (c : Category) : (asRoot org c).id = c.id := by
  unfold asRoot
  split_ifs
  · rfl
  · rfl

/-- `update(Category).where(Category.org_id == org_id).values(parent_id=None)`. -/
def clearParents (db : Tenancy) (org : ℕ) : Tenancy
  | .categories => (db .categories).mapRows (asRoot org) (id_asRoot org)
  | t => db t

/-- Delete the tags of an organisation from all transactions. -/
def deleteTransactionTags (db : Tenancy) (org : ℕ) : Except ServiceError Tenancy :=
  db.deleteWhere .transactionTags fun j =>
    ((db .tags).get? j.tagId).any fun g : Tag => g.orgId = org

/-- Change the contributor counts of the dictionary. -/
def mapDictionary (db : Tenancy) (f : TagDictionary → ℤ) : Tenancy
  | .tagDictionary =>
      (db .tagDictionary).mapRows (fun e => { e with contributorOrgCount := f e }) fun _ => rfl
  | t => db t

/-- The dictionary tags an organisation contributed to. -/
def contributedIds (db : Tenancy) (org : ℕ) : List ℕ :=
  ((db .tagDictionaryContributors).rows.filter
    fun c : TagDictionaryContributor => c.contributorOrgId = org).map
      TagDictionaryContributor.dictionaryTagId

/-- `_decrement_dictionary_counts_for_org`. -/
def decrementDictionaryCountsForOrg (db : Tenancy) (org : ℕ) : Except ServiceError Tenancy :=
  let counted := (db.contributedIds org).foldl
    (fun db id => db.mapDictionary fun e =>
      if e.id = id then e.contributorOrgCount - 1 else e.contributorOrgCount) db
  counted.deleteWhere .tagDictionaryContributors fun c => c.contributorOrgId = org

/-! ### Wipe -/

/-- The tables that are emptied before the categories, children before parents. The wipe and the
reset both spell out this order. -/
def childrenFirst : List TableName :=
  [.transactions, .forecastPlanItems, .budgets, .recurringTransactions, .forecastPlans,
    .billingPeriods, .accounts, .accountTypes, .categoryRules]

/-- The tags of an organisation and its contributions to the dictionary. -/
def wipeTags (db : Tenancy) (org : ℕ) : Except ServiceError Tenancy := do
  let untagged ← db.deleteTransactionTags org
  let uncounted ← untagged.decrementDictionaryCountsForOrg org
  uncounted.deleteByOrg org .tags

/-- `wipe_org_data`. -/
def wipeOrgData (db : Tenancy) (org : ℕ) : Except ServiceError Tenancy := do
  let childless ← childrenFirst.foldlM (deleteByOrg org) db
  let bare ← (childless.clearParents org).deleteByOrg org .categories
  bare.wipeTags org

/-! ### Reset -/

/-- The rows of an organisation in a table. -/
def ownRows (db : Tenancy) (org : ℕ) (t : TableName) : List (tenancy.RowOf t) :=
  (db t).rows.filter fun r => t.ref r .orgId = some org

/-- The turns of `_batch_delete_by_pk`, at most as many as the first argument says. -/
def batchDeleteLoop (org batchSize : ℕ) (t : TableName) :
    ℕ → Tenancy → Except ServiceError Tenancy
  | 0, _ => .error (.database "the loop has no turn left")
  | fuel + 1, db =>
      let ids := ((db.ownRows org t).take batchSize).map Row.id
      if ids = [] then pure db
      else do
        let next ← db.deleteWhere t fun r => Row.id r ∈ ids
        if ids.length < batchSize then pure next else batchDeleteLoop org batchSize t fuel next

/-- `_batch_delete_by_pk`: delete the rows of an organisation in chunks. A turn that goes on deletes
a row, so one turn more than there are rows is enough. -/
def batchDeleteByPk (org batchSize : ℕ) (db : Tenancy) (t : TableName) :
    Except ServiceError Tenancy :=
  batchDeleteLoop org batchSize t ((db t).rows.length + 1) db

/-- The system account types (`SYSTEM_ACCOUNT_TYPES`): slug and name. -/
def systemAccountTypes : List (String × String) :=
  [("checking", "Checking"), ("savings", "Savings"), ("credit_card", "Credit Card"),
    ("investment", "Investment"), ("cash", "Cash")]

/-- The account types `seed_org_defaults` inserts: those whose slug is missing. -/
def seedAccountTypes (types : Table AccountTypeRow) (org : ℕ) : Table AccountTypeRow :=
  let existing :=
    (types.rows.filter fun a => a.orgId = org ∧ a.isSystem = true).map fun a => a.slug
  ((systemAccountTypes.filter fun s => some s.1 ∉ existing).map fun s =>
    ({ id := 0, orgId := org, slug := some s.1, name := s.2, isSystem := true } : AccountTypeRow)
    ).foldl Table.insert types

/-- `seed_org_defaults`. -/
def seedOrgDefaults (db : Tenancy) (org : ℕ) : Tenancy
  | .accountTypes => seedAccountTypes (db .accountTypes) org
  | .categories => seedCategories (db .categories) org
  | t => db t

/-- The wipe of `reset_org_data`, in batches. -/
def wipeInBatches (db : Tenancy) (org batchSize : ℕ) : Except ServiceError Tenancy := do
  let childless ← childrenFirst.foldlM (batchDeleteByPk org batchSize) db
  let bare ← (childless.clearParents org).batchDeleteByPk org batchSize .categories
  bare.wipeTags org

/-- `reset_org_data`. -/
def resetOrgData (db : Tenancy) (org batchSize : ℕ) : Except ServiceError Tenancy := do
  let wiped ← db.wipeInBatches org batchSize
  pure (wiped.seedOrgDefaults org)

/-! ### Deletion -/

/-- The tables of the shell of an organisation, in the order they are emptied. -/
def shellTables : List TableName :=
  [.invitations, .orgSettings, .orgFeatureOverrides, .users, .subscriptions]

/-- `delete_org_cascade`. -/
def deleteOrgCascade (db : Tenancy) (org : ℕ) : Except ServiceError Tenancy := do
  let _ ← orRaise ((db .organizations).get? org) (.notFound "Organization")
  let wiped ← db.wipeOrgData org
  let bare ← shellTables.foldlM (deleteByOrg org) wiped
  bare.deleteWhere .organizations fun o => o.id = org

/-! ### What the operations are for -/

/-- The financial, import and setup data of an organisation. -/
def dataTables : List TableName :=
  [.transactions, .forecastPlanItems, .budgets, .recurringTransactions, .forecastPlans,
    .billingPeriods, .accounts, .accountTypes, .categoryRules, .categories, .transactionTags,
    .tagDictionaryContributors, .tags, .importBatches]

/-- The row belongs to another organisation. -/
def foreign (db : Tenancy) (org : ℕ) : tenancy.Selection := fun t r =>
  (db.owner t r).any (· ≠ org)

/-- The database without the data of an organisation: its data tables keep the rows of the others,
and each dictionary tag has its count lowered by one for every contribution of the organisation. -/
def emptied (db : Tenancy) (org : ℕ) : Tenancy := fun t =>
  if t ∈ dataTables then (db t).filter (db.foreign org t)
  else db.mapDictionary (fun e => e.contributorOrgCount - (db.contributedIds org).count e.id) t

/-- The database after the deletion of an organisation: its rows are gone from every table that
holds its data or its shell, the rows of the others are as before. The events and the feedback of
the platform stay, without their references to the organisation. -/
structure Removed (db : Tenancy) (org : ℕ) (db' : Tenancy) : Prop where
  data : ∀ t, t ∈ dataTables ∨ t = .tagDictionary → db' t = db.emptied org t
  shell : ∀ t, t ∈ shellTables ∨ t = .organizations ∨ t = .orgDataResetLocks →
    db' t = (db t).filter (db.foreign org t)
  others : ∀ t, t = .auditEvents ∨ t = .feedbackEntries →
    (db' t).next = (db t).next ∧
      (db' t).rows.filter (db.foreign org t) = (db t).rows.filter (db.foreign org t)

end Tenancy

end Pfv
