import Pfv.Models.Subscriptions

/-!
# Subscriptions and entitlements

Trials, plan changes and cancellation (`backend/app/services/subscription_service.py`), the resolver
of features (`backend/app/services/feature_service.py`) and the overrides a superadmin sets
(`backend/app/routers/admin_orgs.py`), without the reminder mails. The settings with the slug of the
default plan and the length of a trial are parameters.

## Main definitions

* `createTrial`, `checkTrialExpiry`, `changePlan`, `cancelSubscription`, `enforceUserLimit`.
* `setFeatureOverride`, `sweepExpiredFeatureOverrides`, `revokeFeatureOverride`.
* `getFeatures`: the effective features of an organisation.
-/

namespace Pfv

/-- The settings the subscriptions read. -/
structure PlanSettings where
  defaultPlanSlug : String := "pro"
  trialDurationDays : ℕ := 14

/-! ### Subscriptions -/

/-- The active plan that sorts first. -/
def firstActivePlan? (db : Platform) : Option Plan :=
  (db.plans.rows.filter (·.isActive)).foldl
    (fun best p => match best with
      | none => some p
      | some b => if p.sortOrder < b.sortOrder then some p else some b) none

/-- `get_default_plan`. -/
def getDefaultPlan (settings : PlanSettings) (db : Platform) : Except ServiceError Plan :=
  match db.planBySlug? settings.defaultPlanSlug with
  | some p => pure p
  | none => orRaise (firstActivePlan? db)
      (.httpException 500 "No active plans configured — seed the database")

/-- `create_trial`. An organisation has one subscription. -/
def createTrial (settings : PlanSettings) (now : ℕ) (db : Platform) (org : ℕ) :
    Except ServiceError Platform := do
  let plan ← getDefaultPlan settings db
  raiseIf ((db.organizations.get? org).isNone ∨ (db.subscription? org).isSome)
    (.database "IntegrityError")
  let trial : PlanSubscription :=
    { orgId := org, planId := plan.id, status := .trialing
      trialStart := some (dayOf now)
      trialEnd := some (dayOf now + settings.trialDurationDays) }
  pure { db with subscriptions := db.subscriptions.insert trial }

/-- The subscription whose trial is over: it goes to the free plan, if there is one. -/
def expireTrial (db : Platform) (sub : PlanSubscription) : PlanSubscription :=
  { sub with
    planId := ((db.planBySlug? "free").map (·.id)).getD sub.planId
    status := .active
    trialStart := none
    trialEnd := none }

/-- `check_trial_expiry`. -/
def checkTrialExpiry (now : ℕ) (db : Platform) (org : ℕ) : Platform :=
  match db.subscription? org with
  | none => db
  | some sub =>
      if sub.status = .trialing ∧ sub.trialEnd.any (· < dayOf now) = true then
        { db with subscriptions := db.subscriptions.put (expireTrial db sub) }
      else db

def BillingInterval.ofValue? : String → Option BillingInterval
  | "monthly" => some .monthly
  | "yearly" => some .yearly
  | _ => none

/-- The days of the period a trial is converted to. -/
def BillingInterval.days : BillingInterval → ℕ
  | .monthly => 30
  | .yearly => 365

/-- A subscription after a change of plan: a trial becomes a paid period, any other keeps its
period. -/
def PlanSubscription.change (sub : PlanSubscription) (now planId : ℕ) (interval : BillingInterval) :
    PlanSubscription :=
  if sub.status = .trialing then
    { sub with
      planId := planId
      billingInterval := interval
      status := .active
      trialStart := none
      trialEnd := none
      currentPeriodStart := some (dayOf now)
      currentPeriodEnd := some (dayOf now + interval.days) }
  else { sub with planId := planId, billingInterval := interval }

/-- `change_plan`. -/
def changePlan (now : ℕ) (db : Platform) (org : ℕ) (planSlug billingInterval : String) :
    Except ServiceError Platform := do
  let newPlan ← orRaise (db.planBySlug? planSlug) (.notFound "Plan")
  let sub ← orRaise (db.subscription? org) (.notFound "Subscription")
  let interval ← orRaise (BillingInterval.ofValue? billingInterval)
    (.validation "Invalid billing interval — use 'monthly' or 'yearly'")
  pure { db with subscriptions := db.subscriptions.put (sub.change now newPlan.id interval) }

/-- `cancel_subscription`. -/
def cancelSubscription (db : Platform) (org : ℕ) : Except ServiceError Platform := do
  let sub ← orRaise (db.subscription? org) (.notFound "Subscription")
  pure { db with subscriptions := db.subscriptions.put { sub with status := .canceled } }

/-- The active users of an organisation. -/
def Members.activeUsers (db : Members) (org : ℕ) : ℕ :=
  db.users.rows.countP fun u => u.orgId = org ∧ u.isActive = true

/-- The plan leaves room for another user. -/
def Platform.HasRoom (db : Platform) (org : ℕ) : Prop :=
  ∀ plan ∈ db.plan? org, ∀ m ∈ plan.maxUsers, db.activeUsers org < m

instance (db : Platform) (org : ℕ) : Decidable (db.HasRoom org) :=
  inferInstanceAs (Decidable (∀ plan ∈ db.plan? org, ∀ m ∈ plan.maxUsers, _ < m))

/-- `enforce_user_limit`. -/
def enforceUserLimit (db : Platform) (org : ℕ) : Except ServiceError Unit :=
  raiseIf (¬db.HasRoom org) (.validation (
    match db.plan? org with
    | none => ""
    | some plan =>
        s!"Your plan ({plan.name}) allows a maximum of {plan.maxUsers.getD 0} user(s). " ++
          "Upgrade your plan to add more users."))

/-! ### Overrides -/

/-- `_validate_feature_key`, as the routes report it. -/
def validateFeatureKey (key : String) : Except ServiceError Unit :=
  raiseIf (key ∉ allFeatureKeys) (.httpException 400 ("Unknown feature key: '" ++ key ++ "'"))

/-- `FeatureOverrideUpsert`. -/
structure FeatureOverrideUpsert where
  value : Bool
  expiresAt : Option ℕ := none

/-- `set_feature_override`. -/
def setFeatureOverride (db : Platform) (actor org : ℕ) (key : String)
    (body : FeatureOverrideUpsert) :
    Except ServiceError Platform := do
  validateFeatureKey key
  let _ ← orRaise (db.organizations.get? org) (.httpException 404 "Organization not found")
  match db.override? org key with
  | none =>
      let row : FeatureOverride :=
        { orgId := org, featureKey := key, value := body.value, setBy := some actor
          expiresAt := body.expiresAt }
      pure { db with overrides := db.overrides.insert row }
  | some existing =>
      let row : FeatureOverride :=
        { existing with value := body.value, setBy := some actor, expiresAt := body.expiresAt }
      pure { db with overrides := db.overrides.put row }

/-- An override that has not expired. -/
def FeatureOverride.isCurrent (o : FeatureOverride) (now : ℕ) : Bool :=
  o.expiresAt.all (now < ·)

/-- `sweep_expired_feature_overrides`. -/
def sweepExpiredFeatureOverrides (now : ℕ) (db : Platform) : Platform :=
  { db with overrides := db.overrides.filter (·.isCurrent now) }

/-- `revoke_feature_override`. -/
def revokeFeatureOverride (db : Platform) (org : ℕ) (key : String) :
    Except ServiceError Platform := do
  validateFeatureKey key
  let _ ← orRaise (db.organizations.get? org) (.httpException 404 "Organization not found")
  let existing ← orRaise (db.override? org key)
    (.httpException 404 s!"FeatureOverride {org}/{key} not found")
  pure { db with overrides := db.overrides.filter (·.id ≠ existing.id) }

/-! ### Features -/

/-- `_fetch_plan_features`: without a subscription no feature is on. -/
def fetchPlanFeatures (db : Platform) (org : ℕ) : Except ServiceError (String → Bool) :=
  validatePlanFeatures (((db.plan? org).map (·.features)).getD [])

/-- `_fetch_active_overrides`. -/
def fetchActiveOverrides (now : ℕ) (db : Platform) (org : ℕ) : List (String × Bool) :=
  (db.overrides.rows.filter fun o => o.orgId = org ∧ o.isCurrent now = true ∧
    o.featureKey ∈ allFeatureKeys).map fun o => (o.featureKey, o.value)

/-- `get_features`: off, then the plan, then the overrides that have not expired. -/
def getFeatures (now : ℕ) (db : Platform) (org : ℕ) :
    Except ServiceError (List (String × Bool)) := do
  let planFeatures ← fetchPlanFeatures db org
  let overrides := fetchActiveOverrides now db org
  pure (allFeatureKeys.map fun key => (key, (overrides.lookup key).getD (planFeatures key)))

end Pfv
