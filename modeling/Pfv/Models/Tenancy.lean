import Pfv.Base.ForeignKeys
import Pfv.Models.Books
import Pfv.Models.Members
import Pfv.Models.Tags

/-!
# The tables of an organisation and their foreign keys

Every table with rows of an organisation (`backend/app/models/`), and every foreign key the models
declare between them with its `ondelete`. A column that is not part of a foreign key is kept where
another module reads it and left out otherwise; a table with a composite primary key has a row id in
its place. Left out are the tables without references to these: the subscription plans, the roles of
the platform and the dictionary of merchants.

## Main definitions

* `TableName`, `Column`, `TableName.RowType`: the tables, their reference columns, their rows.
* `foreignKeys`: the declared foreign keys; `tenancy`: the schema.
* `Tenancy.owner`: the organisation a row belongs to.
-/

namespace Pfv

/-! ### Rows -/

/-- An account type with the columns the seed writes. -/
structure AccountTypeRow extends AccountType where
  name : String
  isSystem : Bool := false
  deriving DecidableEq

structure Subscription where
  id : ℕ := 0
  orgId : ℕ
  planId : ℕ
  deriving DecidableEq

structure OrgFeatureOverride where
  id : ℕ := 0
  orgId : ℕ
  featureKey : String
  value : Bool
  setBy : Option ℕ := none
  deriving DecidableEq

structure OrgDataResetLock where
  id : ℕ := 0
  orgId : ℕ
  acquiredByUserId : ℕ
  deriving DecidableEq

structure AuditEvent where
  id : ℕ := 0
  eventType : String
  actorUserId : Option ℕ := none
  targetOrgId : Option ℕ := none
  deriving DecidableEq

structure FeedbackEntry where
  id : ℕ := 0
  userId : Option ℕ := none
  orgId : Option ℕ := none
  message : String
  deriving DecidableEq

instance : Row AccountTypeRow := ⟨fun a => a.id, fun n a => { a with id := n }, fun _ _ => rfl⟩

instance : Row Subscription := ⟨Subscription.id, fun n s => { s with id := n }, fun _ _ => rfl⟩

instance : Row OrgFeatureOverride :=
  ⟨OrgFeatureOverride.id, fun n o => { o with id := n }, fun _ _ => rfl⟩

instance : Row OrgDataResetLock :=
  ⟨OrgDataResetLock.id, fun n l => { l with id := n }, fun _ _ => rfl⟩

instance : Row AuditEvent := ⟨AuditEvent.id, fun n e => { e with id := n }, fun _ _ => rfl⟩

instance : Row FeedbackEntry := ⟨FeedbackEntry.id, fun n e => { e with id := n }, fun _ _ => rfl⟩

/-! ### Tables and references -/

inductive TableName
  | organizations
  | users
  | invitations
  | orgSettings
  | orgFeatureOverrides
  | orgDataResetLocks
  | subscriptions
  | auditEvents
  | feedbackEntries
  | accountTypes
  | accounts
  | billingPeriods
  | categories
  | categoryRules
  | budgets
  | recurringTransactions
  | forecastPlans
  | forecastPlanItems
  | importBatches
  | transactions
  | tags
  | transactionTags
  | tagDictionary
  | tagDictionaryContributors
  deriving DecidableEq

/-- The columns with foreign keys. -/
inductive Column
  | orgId
  | accountTypeId
  | accountId
  | billingPeriodId
  | categoryId
  | parentId
  | planId
  | linkedTransactionId
  | recurringId
  | importBatchId
  | transactionId
  | tagId
  | dictionaryTagId
  | contributorOrgId
  | createdByUserId
  | setBy
  | acquiredByUserId
  | actorUserId
  | targetOrgId
  | userId
  deriving DecidableEq

namespace TableName

/-- The rows of a table. -/
@[reducible] def RowType : TableName → Type
  | organizations => Organization
  | users => User
  | invitations => Invitation
  | orgSettings => OrgSetting
  | orgFeatureOverrides => OrgFeatureOverride
  | orgDataResetLocks => OrgDataResetLock
  | subscriptions => Subscription
  | auditEvents => AuditEvent
  | feedbackEntries => FeedbackEntry
  | accountTypes => AccountTypeRow
  | accounts => Account
  | billingPeriods => BillingPeriod
  | categories => Category
  | categoryRules => CategoryRule
  | budgets => Budget
  | recurringTransactions => RecurringTransaction
  | forecastPlans => ForecastPlan
  | forecastPlanItems => ForecastPlanItem
  | importBatches => ImportBatch
  | transactions => Transaction
  | tags => Tag
  | transactionTags => TransactionTag
  | tagDictionary => TagDictionary
  | tagDictionaryContributors => TagDictionaryContributor

/-- The rows of every table have a primary key. -/
@[reducible, instance] def row : ∀ t : TableName, Row t.RowType
  | organizations => inferInstanceAs (Row Organization)
  | users => inferInstanceAs (Row User)
  | invitations => inferInstanceAs (Row Invitation)
  | orgSettings => inferInstanceAs (Row OrgSetting)
  | orgFeatureOverrides => inferInstanceAs (Row OrgFeatureOverride)
  | orgDataResetLocks => inferInstanceAs (Row OrgDataResetLock)
  | subscriptions => inferInstanceAs (Row Subscription)
  | auditEvents => inferInstanceAs (Row AuditEvent)
  | feedbackEntries => inferInstanceAs (Row FeedbackEntry)
  | accountTypes => inferInstanceAs (Row AccountTypeRow)
  | accounts => inferInstanceAs (Row Account)
  | billingPeriods => inferInstanceAs (Row BillingPeriod)
  | categories => inferInstanceAs (Row Category)
  | categoryRules => inferInstanceAs (Row CategoryRule)
  | budgets => inferInstanceAs (Row Budget)
  | recurringTransactions => inferInstanceAs (Row RecurringTransaction)
  | forecastPlans => inferInstanceAs (Row ForecastPlan)
  | forecastPlanItems => inferInstanceAs (Row ForecastPlanItem)
  | importBatches => inferInstanceAs (Row ImportBatch)
  | transactions => inferInstanceAs (Row Transaction)
  | tags => inferInstanceAs (Row Tag)
  | transactionTags => inferInstanceAs (Row TransactionTag)
  | tagDictionary => inferInstanceAs (Row TagDictionary)
  | tagDictionaryContributors => inferInstanceAs (Row TagDictionaryContributor)

/-- What a row refers to through a column. -/
def ref : ∀ t : TableName, t.RowType → Column → Option ℕ
  | users, r, .orgId => some r.orgId
  | invitations, r, .orgId => some r.orgId
  | invitations, r, .createdByUserId => some r.createdBy
  | orgSettings, r, .orgId => some r.orgId
  | orgFeatureOverrides, r, .orgId => some r.orgId
  | orgFeatureOverrides, r, .setBy => r.setBy
  | orgDataResetLocks, r, .orgId => some r.orgId
  | orgDataResetLocks, r, .acquiredByUserId => some r.acquiredByUserId
  | subscriptions, r, .orgId => some r.orgId
  | auditEvents, r, .actorUserId => r.actorUserId
  | auditEvents, r, .targetOrgId => r.targetOrgId
  | feedbackEntries, r, .userId => r.userId
  | feedbackEntries, r, .orgId => r.orgId
  | accountTypes, r, .orgId => some r.orgId
  | accounts, r, .orgId => some r.orgId
  | accounts, r, .accountTypeId => some r.accountTypeId
  | billingPeriods, r, .orgId => some r.orgId
  | categories, r, .orgId => some r.orgId
  | categories, r, .parentId => r.parentId
  | categoryRules, r, .orgId => some r.orgId
  | categoryRules, r, .categoryId => some r.categoryId
  | budgets, r, .orgId => some r.orgId
  | budgets, r, .categoryId => some r.categoryId
  | recurringTransactions, r, .orgId => some r.orgId
  | recurringTransactions, r, .accountId => some r.accountId
  | recurringTransactions, r, .categoryId => some r.categoryId
  | forecastPlans, r, .orgId => some r.orgId
  | forecastPlans, r, .billingPeriodId => some r.billingPeriodId
  | forecastPlanItems, r, .planId => some r.planId
  | forecastPlanItems, r, .orgId => some r.orgId
  | forecastPlanItems, r, .categoryId => some r.categoryId
  | importBatches, r, .orgId => some r.orgId
  | importBatches, r, .accountId => some r.accountId
  | importBatches, r, .createdByUserId => some r.createdByUserId
  | transactions, r, .orgId => some r.orgId
  | transactions, r, .accountId => some r.accountId
  | transactions, r, .categoryId => some r.categoryId
  | transactions, r, .linkedTransactionId => r.linkedTransactionId
  | transactions, r, .recurringId => r.recurringId
  | transactions, r, .importBatchId => r.importBatchId
  | tags, r, .orgId => some r.orgId
  | tags, r, .createdByUserId => r.createdByUserId
  | transactionTags, r, .transactionId => some r.transactionId
  | transactionTags, r, .tagId => some r.tagId
  | tagDictionaryContributors, r, .dictionaryTagId => some r.dictionaryTagId
  | tagDictionaryContributors, r, .contributorOrgId => some r.contributorOrgId
  | _, _, _ => none

/-- Clear a column that may be null. -/
def clear : ∀ t : TableName, Column → t.RowType → t.RowType
  | orgFeatureOverrides, .setBy, r => { r with setBy := none }
  | auditEvents, .actorUserId, r => { r with actorUserId := none }
  | auditEvents, .targetOrgId, r => { r with targetOrgId := none }
  | feedbackEntries, .userId, r => { r with userId := none }
  | feedbackEntries, .orgId, r => { r with orgId := none }
  | transactions, .linkedTransactionId, r => { r with linkedTransactionId := none }
  | transactions, .recurringId, r => { r with recurringId := none }
  | transactions, .importBatchId, r => { r with importBatchId := none }
  | tags, .createdByUserId, r => { r with createdByUserId := none }
  | _, _, r => r

end TableName

/-! ### Foreign keys -/

/-- The keys without an `ondelete`: the delete of a row that is referred to is refused. -/
def restrictingKeys : List (ForeignKey TableName Column) :=
  [⟨.accountTypes, .orgId, .organizations, .restrict⟩,
    ⟨.accounts, .orgId, .organizations, .restrict⟩,
    ⟨.accounts, .accountTypeId, .accountTypes, .restrict⟩,
    ⟨.billingPeriods, .orgId, .organizations, .restrict⟩,
    ⟨.budgets, .orgId, .organizations, .restrict⟩,
    ⟨.budgets, .categoryId, .categories, .restrict⟩,
    ⟨.categories, .orgId, .organizations, .restrict⟩,
    ⟨.categories, .parentId, .categories, .restrict⟩,
    ⟨.categoryRules, .orgId, .organizations, .restrict⟩,
    ⟨.categoryRules, .categoryId, .categories, .restrict⟩,
    ⟨.forecastPlans, .orgId, .organizations, .restrict⟩,
    ⟨.forecastPlans, .billingPeriodId, .billingPeriods, .restrict⟩,
    ⟨.forecastPlanItems, .orgId, .organizations, .restrict⟩,
    ⟨.forecastPlanItems, .categoryId, .categories, .restrict⟩,
    ⟨.importBatches, .orgId, .organizations, .restrict⟩,
    ⟨.importBatches, .accountId, .accounts, .restrict⟩,
    ⟨.importBatches, .createdByUserId, .users, .restrict⟩,
    ⟨.invitations, .orgId, .organizations, .restrict⟩,
    ⟨.invitations, .createdByUserId, .users, .restrict⟩,
    ⟨.orgSettings, .orgId, .organizations, .restrict⟩,
    ⟨.recurringTransactions, .orgId, .organizations, .restrict⟩,
    ⟨.recurringTransactions, .accountId, .accounts, .restrict⟩,
    ⟨.recurringTransactions, .categoryId, .categories, .restrict⟩,
    ⟨.subscriptions, .orgId, .organizations, .restrict⟩,
    ⟨.transactions, .orgId, .organizations, .restrict⟩,
    ⟨.transactions, .accountId, .accounts, .restrict⟩,
    ⟨.transactions, .categoryId, .categories, .restrict⟩,
    ⟨.users, .orgId, .organizations, .restrict⟩]

/-- The keys with `ondelete="CASCADE"`. -/
def cascadingKeys : List (ForeignKey TableName Column) :=
  [⟨.forecastPlanItems, .planId, .forecastPlans, .cascade⟩,
    ⟨.orgDataResetLocks, .orgId, .organizations, .cascade⟩,
    ⟨.orgDataResetLocks, .acquiredByUserId, .users, .cascade⟩,
    ⟨.orgFeatureOverrides, .orgId, .organizations, .cascade⟩,
    ⟨.tagDictionaryContributors, .dictionaryTagId, .tagDictionary, .cascade⟩,
    ⟨.tagDictionaryContributors, .contributorOrgId, .organizations, .cascade⟩,
    ⟨.tags, .orgId, .organizations, .cascade⟩,
    ⟨.transactionTags, .transactionId, .transactions, .cascade⟩,
    ⟨.transactionTags, .tagId, .tags, .cascade⟩]

/-- The keys with `ondelete="SET NULL"`. -/
def clearingKeys : List (ForeignKey TableName Column) :=
  [⟨.auditEvents, .actorUserId, .users, .setNull⟩,
    ⟨.auditEvents, .targetOrgId, .organizations, .setNull⟩,
    ⟨.feedbackEntries, .userId, .users, .setNull⟩,
    ⟨.feedbackEntries, .orgId, .organizations, .setNull⟩,
    ⟨.orgFeatureOverrides, .setBy, .users, .setNull⟩,
    ⟨.tags, .createdByUserId, .users, .setNull⟩,
    ⟨.transactions, .linkedTransactionId, .transactions, .setNull⟩,
    ⟨.transactions, .recurringId, .recurringTransactions, .setNull⟩,
    ⟨.transactions, .importBatchId, .importBatches, .setNull⟩]

def foreignKeys : List (ForeignKey TableName Column) :=
  restrictingKeys ++ cascadingKeys ++ clearingKeys

/-- How many cascading keys in a row may lead to a table. -/
def TableName.level : TableName → ℕ
  | transactionTags => 2
  | tags => 1
  | tagDictionaryContributors => 1
  | forecastPlanItems => 1
  | orgFeatureOverrides => 1
  | orgDataResetLocks => 1
  | _ => 0

theorem TableName.ref_clear :
    ∀ fk ∈ foreignKeys, fk.onDelete = .setNull → ∀ (r : fk.child.RowType) (k : Column),
      ref fk.child (clear fk.child fk.column r) k =
        if k = fk.column then none else ref fk.child r k := by
  intro fk hfk hnull
  have hmem : fk ∈ clearingKeys := by
    rcases List.mem_append.mp hfk with hfk | hfk
    · rcases List.mem_append.mp hfk with hfk | hfk
      · exact absurd hnull ((by decide : ∀ fk ∈ restrictingKeys, fk.onDelete ≠ .setNull) fk hfk)
      · exact absurd hnull ((by decide : ∀ fk ∈ cascadingKeys, fk.onDelete ≠ .setNull) fk hfk)
    · exact hfk
  simp only [clearingKeys, List.mem_cons, List.not_mem_nil, or_false] at hmem
  rcases hmem with rfl | rfl | rfl | rfl | rfl | rfl | rfl | rfl | rfl
  all_goals
    intro r k
    cases k
    all_goals rfl

/-- The tables of the database with the declared foreign keys. -/
@[reducible] def tenancy : Schema TableName Column where
  RowOf := TableName.RowType
  row := TableName.row
  ref := TableName.ref
  clear := TableName.clear
  keys := foreignKeys
  level := TableName.level
  depth := 2
  id_clear := by
    intro t k r
    cases t
    all_goals
      cases k
      all_goals rfl
  ref_clear := TableName.ref_clear
  level_lt := by decide
  level_le := by
    intro t
    cases t
    all_goals decide

/-- The database. -/
abbrev Tenancy := tenancy.Database

namespace Tenancy

/-- The organisation a row belongs to: the one in its organisation column, for a tag on a
transaction that of the tag. A dictionary tag belongs to nobody. -/
def owner (db : Tenancy) : ∀ t : TableName, t.RowType → Option ℕ
  | .organizations, r => some r.id
  | .auditEvents, r => r.targetOrgId
  | .tagDictionary, _ => none
  | .tagDictionaryContributors, r => some r.contributorOrgId
  | .transactionTags, r => ((db .tags).get? r.tagId).map Tag.orgId
  | t, r => t.ref r .orgId

end Tenancy

end Pfv
