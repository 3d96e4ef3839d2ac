import Pfv.Models.Tenancy

/-!
# Plans, subscriptions and feature overrides

The rows behind what an organisation may use (`backend/app/models/subscription.py`,
`backend/app/models/feature_override.py`) and the catalogue of features
(`backend/app/auth/feature_catalog.py`). Days are counted from a fixed day and times in seconds from
its start; the clock of the server is in UTC, so the day of a time is its number of whole days.
Prices, time stamps and notes are left out.

## Main definitions

* `Plan`, `PlanSubscription`, `FeatureOverride`, and `Platform`: the tables.
* `allFeatureKeys`, `validatePlanFeatures`: the catalogue, and the features of a plan against it.
-/

namespace Pfv

/-! ### Rows -/

inductive SubscriptionStatus
  | trialing
  | active
  | pastDue
  | canceled
  deriving DecidableEq

inductive BillingInterval
  | monthly
  | yearly
  deriving DecidableEq

/-- A plan; without `maxUsers` it is unlimited. `features` is a JSON object of booleans. -/
structure Plan where
  id : ℕ := 0
  name : String
  slug : String
  isActive : Bool := true
  sortOrder : ℤ := 0
  maxUsers : Option ℕ := none
  features : List (String × Bool) := []
  deriving DecidableEq

/-- A subscription with its status and its dates. -/
structure PlanSubscription extends Subscription where
  status : SubscriptionStatus := .trialing
  billingInterval : BillingInterval := .monthly
  trialStart : Option ℕ := none
  trialEnd : Option ℕ := none
  currentPeriodStart : Option ℕ := none
  currentPeriodEnd : Option ℕ := none
  deriving DecidableEq

/-- An override with the time it expires at. -/
structure FeatureOverride extends OrgFeatureOverride where
  expiresAt : Option ℕ := none
  deriving DecidableEq

instance : Row Plan := ⟨Plan.id, fun n p => { p with id := n }, fun _ _ => rfl⟩

instance : Row PlanSubscription := ⟨fun s => s.id, fun n s => { s with id := n }, fun _ _ => rfl⟩

instance : Row FeatureOverride := ⟨fun o => o.id, fun n o => { o with id := n }, fun _ _ => rfl⟩

/-- The organisations and their members, with what they subscribed to. -/
structure Platform extends Members where
  plans : Table Plan
  subscriptions : Table PlanSubscription
  overrides : Table FeatureOverride

/-- The day of a time. -/
def dayOf (now : ℕ) : ℕ :=
  now / 86400

/-! ### Features -/

/-- The catalogue of features. -/
def allFeatureKeys : List String :=
  ["ai.budget", "ai.forecast", "ai.smart_plan", "ai.autocategorize"]

/-- `PlanFeatures.model_validate`: a key outside the catalogue is refused, a missing one is off. -/
def validatePlanFeatures (raw : List (String × Bool)) : Except ServiceError (String → Bool) := do
  raiseIf (∃ f ∈ raw, f.1 ∉ allFeatureKeys) (.schema "PlanFeatures")
  pure fun key => (raw.lookup key).getD false

namespace Platform

/-- `get_subscription`. -/
def subscription? (db : Platform) (org : ℕ) : Option PlanSubscription :=
  db.subscriptions.rows.find? fun s => s.orgId = org

/-- The plan an organisation subscribed to. -/
def plan? (db : Platform) (org : ℕ) : Option Plan :=
  (db.subscription? org).bind fun s => db.plans.get? s.planId

/-- The active plan with a slug. -/
def planBySlug? (db : Platform) (slug : String) : Option Plan :=
  db.plans.rows.find? fun p => p.slug = slug ∧ p.isActive = true

/-- The override of a feature for an organisation. -/
def override? (db : Platform) (org : ℕ) (key : String) : Option FeatureOverride :=
  db.overrides.rows.find? fun o => o.orgId = org ∧ o.featureKey = key

end Platform

end Pfv
