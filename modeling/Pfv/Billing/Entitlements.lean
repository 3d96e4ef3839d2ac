import Pfv.Base.Run
import Pfv.Services.Subscriptions

/-!
# Entitlements and the life of a subscription

What an organisation may use is read from the plan of its subscription and from the overrides. The
status and the dates of the subscription are not read. A trial that has ended keeps its plan until
`check_trial_expiry` notices, and a cancelled subscription keeps it for good.

## Main definitions

* `EntitlementRequest`: the operations, and the reading of the features between them.
* `PlanSubscription.InForce`: the subscription gives access on a day.
* `Entitled`: a feature is granted by an override, or by the plan of a subscription in force.
* `PlanSubscription.isOver`: the trial or the cancelled subscription has ended.

## Main results

* `readsEntitled_iff`: the features an organisation reads in a run are those it is entitled to
  exactly when no reading finds a subscription that is over with a plan that still grants something.
-/

namespace Pfv

/-! ### Runs -/

inductive EntitlementRequest
  | createTrial (org : ℕ)
  | checkTrialExpiry (org : ℕ)
  | changePlan (org : ℕ) (planSlug billingInterval : String)
  | cancelSubscription (org : ℕ)
  | setFeatureOverride (actor org : ℕ) (key : String) (body : FeatureOverrideUpsert)
  | sweepExpired
  | revokeFeatureOverride (org : ℕ) (key : String)
  | getFeatures (org : ℕ)

/-- Serve a request at a time. -/
def EntitlementRequest.step (settings : PlanSettings) (db : Platform) :
    ℕ × EntitlementRequest → Except ServiceError Platform
  | (now, .createTrial org) => Pfv.createTrial settings now db org
  | (now, .checkTrialExpiry org) => pure (Pfv.checkTrialExpiry now db org)
  | (now, .changePlan org planSlug billingInterval) =>
      Pfv.changePlan now db org planSlug billingInterval
  | (_, .cancelSubscription org) => Pfv.cancelSubscription db org
  | (_, .setFeatureOverride actor org key body) => Pfv.setFeatureOverride db actor org key body
  | (now, .sweepExpired) => pure (sweepExpiredFeatureOverrides now db)
  | (_, .revokeFeatureOverride org key) => Pfv.revokeFeatureOverride db org key
  | (_, .getFeatures _) => pure db

/-! ### Entitlement -/

/-- The day has not passed. -/
def NotPassed (today : ℕ) (day : Option ℕ) : Prop :=
  ∃ e ∈ day, today ≤ e

/-- The subscription gives access: it is active, or in its trial, or cancelled within its current
period or, without one, within the trial it was cancelled in. -/
def PlanSubscription.InForce (sub : PlanSubscription) (today : ℕ) : Prop :=
  sub.status = .active ∨ (sub.status = .trialing ∧ NotPassed today sub.trialEnd) ∨
    (sub.status = .canceled ∧ NotPassed today (sub.currentPeriodEnd <|> sub.trialEnd))

/-- An override that has not expired grants the feature; or there is none, and the plan of a
subscription in force includes it. -/
def Entitled (db : Platform) (now org : ℕ) (key : String) : Prop :=
  (∃ o ∈ db.overrides.rows, o.orgId = org ∧ o.featureKey = key ∧ o.isCurrent now = true ∧
    o.value = true) ∨
  (∀ o ∈ db.overrides.rows, o.orgId = org → o.featureKey = key → o.isCurrent now = false) ∧
    ∃ sub plan, db.subscription? org = some sub ∧ db.plans.get? sub.planId = some plan ∧
      plan.features.lookup key = some true ∧ sub.InForce (dayOf now)

/-- Every feature that is read as granted is one the organisation is entitled to. -/
def ReadsEntitled (db : Platform) : ℕ × EntitlementRequest → Prop
  | (now, .getFeatures org) => ∀ features, getFeatures now db org = .ok features →
      ∀ key, (key, true) ∈ features → Entitled db now org key
  | _ => True

/-! ### Subscriptions that are over -/

/-- The trial has ended and was not checked since, or the subscription was cancelled and its period,
or without one its trial, has ended. -/
def PlanSubscription.isOver (sub : PlanSubscription) (today : ℕ) : Bool :=
  match sub.status with
  | .trialing => sub.trialEnd.any (· < today)
  | .canceled => (sub.currentPeriodEnd <|> sub.trialEnd).all (· < today)
  | _ => false

/-- The plan grants the organisation nothing that no override decides. -/
def AddsNothing (db : Platform) (now org : ℕ) (plan : Plan) : Prop :=
  ∀ key ∈ allFeatureKeys, plan.features.lookup key = some true →
    ∃ o ∈ db.overrides.rows, o.orgId = org ∧ o.featureKey = key ∧ o.isCurrent now = true

/-- Features are read while the subscription is not over, unless its plan adds nothing. -/
def ReadsInTime (db : Platform) : ℕ × EntitlementRequest → Prop
  | (now, .getFeatures org) => ∀ sub ∈ db.subscription? org, sub.isOver (dayOf now) = true →
      ∀ plan ∈ db.plans.get? sub.planId, (validatePlanFeatures plan.features).isOk = true →
        AddsNothing db now org plan
  | _ => True

instance (db : Platform) (now org : ℕ) (plan : Plan) : Decidable (AddsNothing db now org plan) :=
  inferInstanceAs (Decidable (∀ key ∈ allFeatureKeys, _ → ∃ o ∈ db.overrides.rows, _ ∧ _ ∧ _))

instance (db : Platform) : ∀ e : ℕ × EntitlementRequest, Decidable (ReadsInTime db e)
  | (_, .getFeatures org) => inferInstanceAs (Decidable (∀ sub ∈ db.subscription? org, _ →
      ∀ plan ∈ db.plans.get? sub.planId, _ → _))
  | (_, .createTrial _) => .isTrue trivial
  | (_, .checkTrialExpiry _) => .isTrue trivial
  | (_, .changePlan _ _ _) => .isTrue trivial
  | (_, .cancelSubscription _) => .isTrue trivial
  | (_, .setFeatureOverride _ _ _ _) => .isTrue trivial
  | (_, .sweepExpired) => .isTrue trivial
  | (_, .revokeFeatureOverride _ _) => .isTrue trivial

variable {settings : PlanSettings} {db db' : Platform} {now today org : ℕ} {key : String}

/-! ### The life of a subscription -/

/-- Only a subscription in its trial has no other dates, and none is past due. -/
structure PlanSubscription.Sound (sub : PlanSubscription) : Prop where
  not_pastDue : sub.status ≠ .pastDue
  trialEnd : sub.status = .trialing → sub.trialEnd.isSome = true

/-- Every subscription is sound. -/
def SoundSubscriptions (db : Platform) : Prop :=
  ∀ sub ∈ db.subscriptions.rows, sub.Sound

theorem notPassed_iff {day : Option ℕ} : NotPassed today day ↔ day.all (· < today) = false := by
  cases day with
  | none => simp [NotPassed]
  | some e => simp [NotPassed]

/-- A subscription gives access exactly when it is not over. -/
theorem PlanSubscription.Sound.inForce_iff {sub : PlanSubscription} (h : sub.Sound) :
    sub.InForce today ↔ sub.isOver today = false := by
  unfold PlanSubscription.InForce PlanSubscription.isOver
  cases hstatus : sub.status with
  | trialing =>
    obtain ⟨e, he⟩ := Option.isSome_iff_exists.mp (h.trialEnd hstatus)
    simp [he, NotPassed]
  | active => simp
  | pastDue => exact absurd hstatus h.not_pastDue
  | canceled => simp [notPassed_iff]

theorem subscription?_mem {sub : PlanSubscription} (h : db.subscription? org = some sub) :
    sub ∈ db.subscriptions.rows :=
  List.mem_of_find?_eq_some h

/-- Writing a sound row back keeps every subscription sound. -/
theorem SoundSubscriptions.put (h : SoundSubscriptions db) {old sub : PlanSubscription}
    (hold : old ∈ db.subscriptions.rows) (hid : old.id = sub.id) (hsub : sub.Sound) :
    SoundSubscriptions { db with subscriptions := db.subscriptions.put sub } := by
  intro s hs
  rcases (Table.mem_put hold hid).mp hs with rfl | ⟨hmem, -⟩
  · exact hsub
  · exact h s hmem

theorem checkTrialExpiry_sound (h : SoundSubscriptions db) :
    SoundSubscriptions (checkTrialExpiry now db org) := by
  unfold checkTrialExpiry
  split
  · exact h
  · rename_i sub hsub
    split_ifs
    · exact h.put (subscription?_mem hsub) rfl ⟨by simp [expireTrial], by simp [expireTrial]⟩
    · exact h

theorem createTrial_sound (h : SoundSubscriptions db)
    (hok : createTrial settings now db org = .ok db') :
    SoundSubscriptions db' := by
  unfold createTrial at hok
  simp only [bind_eq_ok, ↓raiseIf_bind_eq_ok, pure_eq_ok] at hok
  obtain ⟨plan, -, -, rfl⟩ := hok
  intro s hs
  rcases Table.mem_insert.mp hs with hs | rfl
  · exact h s hs
  · exact ⟨by simp [Row.withId], fun _ => rfl⟩

theorem changePlan_sound (h : SoundSubscriptions db) {planSlug billingInterval : String}
    (hok : changePlan now db org planSlug billingInterval = .ok db') : SoundSubscriptions db' := by
  unfold changePlan at hok
  simp only [bind_eq_ok, orRaise_eq_ok, pure_eq_ok] at hok
  obtain ⟨plan, -, sub, hsub, interval, -, rfl⟩ := hok
  have hmem := subscription?_mem hsub
  have hsound := h sub hmem
  refine h.put hmem ?_ ?_
  · unfold PlanSubscription.change
    split_ifs <;> rfl
  · unfold PlanSubscription.change
    split_ifs with htrial
    · exact ⟨by simp, by simp⟩
    · exact ⟨hsound.not_pastDue, fun hstatus => absurd hstatus htrial⟩

theorem cancelSubscription_sound (h : SoundSubscriptions db)
    (hok : cancelSubscription db org = .ok db') : SoundSubscriptions db' := by
  unfold cancelSubscription at hok
  simp only [bind_eq_ok, orRaise_eq_ok, pure_eq_ok] at hok
  obtain ⟨sub, hsub, rfl⟩ := hok
  exact h.put (subscription?_mem hsub) rfl ⟨by simp, by simp⟩

theorem subscriptions_setFeatureOverride {actor : ℕ} {body : FeatureOverrideUpsert}
    (hok : setFeatureOverride db actor org key body = .ok db') :
    db'.subscriptions = db.subscriptions := by
  unfold setFeatureOverride validateFeatureKey at hok
  simp only [↓raiseIf_bind_eq_ok, bind_eq_ok, orRaise_eq_ok] at hok
  obtain ⟨-, _, -, hok⟩ := hok
  split at hok
  all_goals
    rw [pure_eq_ok] at hok
    subst hok
    rfl

theorem subscriptions_revokeFeatureOverride (hok : revokeFeatureOverride db org key = .ok db') :
    db'.subscriptions = db.subscriptions := by
  unfold revokeFeatureOverride validateFeatureKey at hok
  simp only [↓raiseIf_bind_eq_ok, bind_eq_ok, orRaise_eq_ok, pure_eq_ok] at hok
  obtain ⟨-, _, -, _, -, rfl⟩ := hok
  rfl

/-- No operation leaves a subscription past due, or in a trial without an end. -/
theorem EntitlementRequest.step_sound {e : ℕ × EntitlementRequest} (h : SoundSubscriptions db)
    (hok : EntitlementRequest.step settings db e = .ok db') : SoundSubscriptions db' := by
  obtain ⟨now, r⟩ := e
  cases r with
  | createTrial org => exact createTrial_sound h hok
  | checkTrialExpiry org =>
    obtain rfl := pure_eq_ok.mp hok
    exact checkTrialExpiry_sound h
  | changePlan org planSlug billingInterval => exact changePlan_sound h hok
  | cancelSubscription org => exact cancelSubscription_sound h hok
  | setFeatureOverride actor org key body =>
    unfold SoundSubscriptions
    rw [subscriptions_setFeatureOverride hok]
    exact h
  | sweepExpired =>
    obtain rfl := pure_eq_ok.mp hok
    exact h
  | revokeFeatureOverride org key =>
    unfold SoundSubscriptions
    rw [subscriptions_revokeFeatureOverride hok]
    exact h
  | getFeatures org =>
    obtain rfl := pure_eq_ok.mp hok
    exact h

/-! ### What is read -/

theorem mem_fetchActiveOverrides {value : Bool} :
    (key, value) ∈ fetchActiveOverrides now db org ↔ key ∈ allFeatureKeys ∧
      ∃ o ∈ db.overrides.rows, o.orgId = org ∧ o.featureKey = key ∧ o.isCurrent now = true ∧
        o.value = value := by
  simp only [fetchActiveOverrides, List.mem_map, List.mem_filter, decide_eq_true_eq, Prod.mk.injEq]
  constructor
  · rintro ⟨o, ⟨ho, horg, hcurrent, hkey⟩, rfl, rfl⟩
    exact ⟨hkey, o, ho, horg, rfl, hcurrent, rfl⟩
  · rintro ⟨hkey, o, ho, horg, rfl, hcurrent, rfl⟩
    exact ⟨o, ⟨ho, horg, hcurrent, hkey⟩, rfl, rfl⟩

/-- Without an answer among the overrides, none is current. -/
theorem lookup_fetchActiveOverrides_eq_none (hkey : key ∈ allFeatureKeys) :
    (fetchActiveOverrides now db org).lookup key = none ↔
      ∀ o ∈ db.overrides.rows, o.orgId = org → o.featureKey = key → o.isCurrent now = false := by
  rw [List.lookup_eq_none_iff]
  constructor
  · intro h o ho horg hk
    by_contra hcurrent
    have hmem := mem_fetchActiveOverrides.mpr
      ⟨hkey, o, ho, horg, hk, by simpa using hcurrent, rfl⟩
    simpa using h _ hmem
  · rintro h ⟨k, v⟩ hmem
    by_contra hk
    obtain rfl : key = k := by simpa using hk
    obtain ⟨-, o, ho, horg, hk', hcurrent, -⟩ := mem_fetchActiveOverrides.mp hmem
    rw [h o ho horg hk'] at hcurrent
    exact absurd hcurrent (by simp)

theorem lookup_fetchActiveOverrides_eq_some {value : Bool}
    (h : (fetchActiveOverrides now db org).lookup key = some value) :
    ∃ o ∈ db.overrides.rows, o.orgId = org ∧ o.featureKey = key ∧ o.isCurrent now = true ∧
      o.value = value := by
  obtain ⟨l₁, l₂, hl, -⟩ := List.lookup_eq_some_iff.mp h
  exact (mem_fetchActiveOverrides.mp (hl ▸ by simp)).2

/-- The plan of the subscription, with features of the catalogue alone, includes a feature. -/
def PlanGrants (db : Platform) (org : ℕ) (key : String) : Prop :=
  ∃ sub plan, db.subscription? org = some sub ∧ db.plans.get? sub.planId = some plan ∧
    (validatePlanFeatures plan.features).isOk = true ∧ plan.features.lookup key = some true

theorem validatePlanFeatures_apply {raw : List (String × Bool)} {f : String → Bool}
    (h : validatePlanFeatures raw = .ok f) : f key = true ↔ raw.lookup key = some true := by
  unfold validatePlanFeatures at h
  rw [raiseIf_bind_eq_ok, pure_eq_ok] at h
  obtain ⟨-, rfl⟩ := h
  cases hlookup : raw.lookup key with
  | none => simp [hlookup]
  | some b => simp [hlookup]

theorem fetchPlanFeatures_apply {f : String → Bool} (h : fetchPlanFeatures db org = .ok f) :
    f key = true ↔ PlanGrants db org key := by
  unfold fetchPlanFeatures at h
  rw [validatePlanFeatures_apply h]
  constructor
  · intro hlookup
    cases hplan : db.plan? org with
    | none => simp [hplan] at hlookup
    | some plan =>
      obtain ⟨sub, hsub, hget⟩ := Option.bind_eq_some_iff.mp hplan
      rw [hplan] at h hlookup
      exact ⟨sub, plan, hsub, hget,
        by rw [show validatePlanFeatures plan.features = .ok f from h]; rfl, hlookup⟩
  · rintro ⟨sub, plan, hsub, hget, -, hlookup⟩
    have hplan : db.plan? org = some plan := Option.bind_eq_some_iff.mpr ⟨sub, hsub, hget⟩
    rw [hplan]
    exact hlookup

/-- What is read as granted: what an override grants, and what no override decides and the plan
includes. -/
theorem mem_getFeatures {features : List (String × Bool)}
    (h : getFeatures now db org = .ok features) :
    (key, true) ∈ features ↔ key ∈ allFeatureKeys ∧
      ((fetchActiveOverrides now db org).lookup key = some true ∨
        (fetchActiveOverrides now db org).lookup key = none ∧ PlanGrants db org key) := by
  unfold getFeatures at h
  simp only [bind_eq_ok, pure_eq_ok] at h
  obtain ⟨f, hf, rfl⟩ := h
  rw [← fetchPlanFeatures_apply hf, List.mem_map]
  constructor
  · rintro ⟨k, hk, heq⟩
    obtain ⟨rfl, hvalue⟩ := Prod.mk.inj heq
    refine ⟨hk, ?_⟩
    cases hlookup : (fetchActiveOverrides now db org).lookup k with
    | none =>
      rw [hlookup] at hvalue
      exact .inr ⟨rfl, hvalue⟩
    | some b =>
      rw [hlookup] at hvalue
      exact .inl (congrArg some hvalue)
  · rintro ⟨hk, hcase⟩
    refine ⟨key, hk, Prod.ext rfl ?_⟩
    rcases hcase with hsome | ⟨hnone, hplan⟩
    · rw [hsome]
      rfl
    · rw [hnone]
      exact hplan

/-- Whether the features can be read depends on the plan alone. -/
theorem exists_getFeatures_of_planGrants (h : PlanGrants db org key) :
    ∃ features, getFeatures now db org = .ok features := by
  obtain ⟨sub, plan, hsub, hget, hvalid, -⟩ := h
  have hplan : db.plan? org = some plan := Option.bind_eq_some_iff.mpr ⟨sub, hsub, hget⟩
  obtain ⟨f, hf⟩ := exists_of_isOk hvalid
  have hfetch : fetchPlanFeatures db org = .ok f := by
    unfold fetchPlanFeatures
    rw [hplan]
    exact hf
  exact ⟨_, bind_of_ok hfetch⟩

/-! ### Entitlement of what is read -/

/-- A reading is entitled exactly when it is in time. -/
theorem readsEntitled_iff_readsInTime (hsound : SoundSubscriptions db)
    (e : ℕ × EntitlementRequest) :
    ReadsEntitled db e ↔ ReadsInTime db e := by
  obtain ⟨now, r⟩ := e
  cases r with
  | getFeatures org =>
    constructor
    · intro h sub hsub hover plan hplan hvalid key hkey hlookup
      by_contra hnone
      have hcurrent : ∀ o ∈ db.overrides.rows, o.orgId = org → o.featureKey = key →
          o.isCurrent now = false := by
        intro o ho horg hk
        by_contra hcur
        exact hnone ⟨o, ho, horg, hk, by simpa using hcur⟩
      have hgrants : PlanGrants db org key := ⟨sub, plan, hsub, hplan, hvalid, hlookup⟩
      obtain ⟨features, hread⟩ := @exists_getFeatures_of_planGrants db now org key hgrants
      have hmem := (mem_getFeatures hread).mpr
        ⟨hkey, .inr ⟨(lookup_fetchActiveOverrides_eq_none hkey).mpr hcurrent, hgrants⟩⟩
      rcases h features hread key hmem with ⟨o, ho, horg, hk, hcur, -⟩ |
        ⟨-, sub', _, hsub', -, -, hforce⟩
      · exact hnone ⟨o, ho, horg, hk, hcur⟩
      · -- The subscription that grants would be in force.
        obtain rfl : sub = sub' := Option.some_inj.mp (hsub.symm.trans hsub')
        rw [(hsound sub (subscription?_mem hsub)).inForce_iff, hover] at hforce
        exact absurd hforce (by simp)
    · intro h features hread key hmem
      obtain ⟨hkey, hcase⟩ := (mem_getFeatures hread).mp hmem
      rcases hcase with hsome | ⟨hnone, sub, plan, hsub, hplan, hvalid, hlookup⟩
      · exact .inl (lookup_fetchActiveOverrides_eq_some hsome)
      · have hcurrent := (lookup_fetchActiveOverrides_eq_none hkey).mp hnone
        refine .inr ⟨hcurrent, sub, plan, hsub, hplan, hlookup, ?_⟩
        rw [(hsound sub (subscription?_mem hsub)).inForce_iff]
        by_contra hover
        obtain ⟨o, ho, horg, hk, hcur⟩ :=
          h sub hsub (by simpa using hover) plan hplan hvalid key hkey hlookup
        rw [hcurrent o ho horg hk] at hcur
        exact absurd hcur (by simp)
  | _ => exact Iff.rfl

/-- In every run the features that are read are those the organisation is entitled to exactly when
they are read in time: no reading finds a trial that has ended unchecked, or a cancelled
subscription past its end, whose plan still grants a feature no override decides. -/
theorem readsEntitled_iff (hsound : SoundSubscriptions db)
    (events : List (ℕ × EntitlementRequest)) :
    Admits ReadsEntitled (EntitlementRequest.step settings) db events ↔
      Admits ReadsInTime (EntitlementRequest.step settings) db events :=
  admits_congr (fun _ _ _ h hok => EntitlementRequest.step_sound h hok)
    (fun _ e h => readsEntitled_iff_readsInTime h e) events hsound

/-! ### Sample runs -/

/-- An organisation without a subscription, and the plans free and pro. -/
def samplePlatform : Platform where
  organizations := Table.empty.insert { name := "Casa" }
  users := .empty
  invitations := .empty
  importBatches := .empty
  plans := (Table.empty.insert { name := "Free", slug := "free" }).insert
    { name := "Pro", slug := "pro", features := [("ai.budget", true)] }
  subscriptions := .empty
  overrides := .empty

/-- A trial on day 0, read on day 3 and, checked, on day 20. -/
def sampleTrialRun : List (ℕ × EntitlementRequest) :=
  [(0, .createTrial 1), (3 * 86400, .getFeatures 1), (20 * 86400, .checkTrialExpiry 1),
    (20 * 86400, .getFeatures 1)]

theorem samplePlatform_sound : SoundSubscriptions samplePlatform :=
  fun _ h => absurd h List.not_mem_nil

theorem readsEntitled_of_sampleTrialRun :
    Admits ReadsEntitled (EntitlementRequest.step {}) samplePlatform sampleTrialRun :=
  (readsEntitled_iff samplePlatform_sound sampleTrialRun).mpr (by decide +kernel)

/-- A trial on day 0 that is cancelled on day 1. -/
def sampleCanceledRun : List (ℕ × EntitlementRequest) :=
  [(0, .createTrial 1), (86400, .cancelSubscription 1)]

/-- On day 100 the cancelled subscription still grants the features of its plan. -/
theorem not_readsEntitled_of_sampleCanceledRun :
    (getFeatures (100 * 86400)
      (serveAll (EntitlementRequest.step {}) samplePlatform sampleCanceledRun)
        1).toOption.map (·.lookup "ai.budget") = some (some true) ∧
      ¬Admits ReadsEntitled (EntitlementRequest.step {}) samplePlatform
        (sampleCanceledRun ++ [(100 * 86400, .getFeatures 1)]) := by
  refine ⟨by decide +kernel, fun h => ?_⟩
  have hread := (Admits.of_append h).2.1
  have hsound : SoundSubscriptions
      (serveAll (EntitlementRequest.step {}) samplePlatform sampleCanceledRun) := by
    have hruns : Admits (fun _ _ => True) (EntitlementRequest.step {}) samplePlatform
        sampleCanceledRun := by decide +kernel
    exact serveAll_invariant (fun _ _ _ hs _ hok => EntitlementRequest.step_sound hs hok) _
      samplePlatform_sound hruns
  have hlate : ¬ReadsInTime (serveAll (EntitlementRequest.step {}) samplePlatform sampleCanceledRun)
      (100 * 86400, .getFeatures 1) := by decide +kernel
  exact hlate ((readsEntitled_iff_readsInTime hsound _).mp hread)

end Pfv
