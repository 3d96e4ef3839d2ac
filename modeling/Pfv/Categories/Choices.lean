import Pfv.Services.Learning

/-!
# What an organisation has learned

Every successful choice of a category for a description writes the rule of the organisation for the
token of the description, and no other rule. So an organisation has one rule per token that was
chosen for, the rule has the category of the last choice and counts the choices, and it is what
`inferCategory` answers with, whatever the shared dictionary says.

The normalization of descriptions is any function: two descriptions are the same to the rules when
their tokens are.

## Main definitions

* `LearnCall`: a call of `learnFromChoice`, with the database it runs on.
* `LearnCall.On`: a call teaches the rule of an organisation for a token.
* `Learned`: the rules for a token after some choices.

## Main results

* `learned_of_calls`: what any sequence of successful calls leaves of the rules for a token.
* `inferCategory_of_calls`: the last choice is answered.
-/

namespace Pfv

/-- The choice of a category for a description. -/
structure LearnCall where
  db : Db
  org : ℕ
  description : String
  categoryId : ℕ
  source : RuleSource

variable (normalizeDescription : String → String)

/-- The rules after a call. -/
def LearnCall.serve (rules : Table CategoryRule) (call : LearnCall) :
    Except ServiceError (Table CategoryRule) :=
  learnFromChoice normalizeDescription call.db rules call.org call.description call.categoryId
    call.source

/-- The rule that the first call on a token makes. -/
def LearnCall.newRule (call : LearnCall) : CategoryRule where
  orgId := call.org
  categoryId := call.categoryId
  normalizedToken := normalizeDescription call.description
  rawDescriptionSeen := String.ofList (call.description.toList.take 255)
  matchCount := 1
  source := call.source

/-- What a later call makes of the rule. -/
def LearnCall.overwrite (call : LearnCall) (rule : CategoryRule) : CategoryRule :=
  { rule with
    categoryId := call.categoryId, source := call.source
    rawDescriptionSeen := String.ofList (call.description.toList.take 255)
    matchCount := rule.matchCount + 1 }

/-- A call teaches the rule of an organisation for a token. -/
def LearnCall.On (org : ℕ) (token : String) (call : LearnCall) : Prop :=
  call.org = org ∧ normalizeDescription call.description = token

instance (org : ℕ) (token : String) :
    DecidablePred (LearnCall.On normalizeDescription org token) :=
  fun _ => inferInstanceAs (Decidable (_ ∧ _))

/-- The rules of an organisation for a token. -/
def rulesFor (rules : Table CategoryRule) (org : ℕ) (token : String) : List CategoryRule :=
  rules.rows.filter fun r => r.orgId = org ∧ r.normalizedToken = token

/-- What some choices for a token, the last one first, leave of its rules: none before the first,
then one with the category, the source and the text of the last, that counts them all. -/
def Learned (found : List CategoryRule) : List LearnCall → Prop
  | [] => found = []
  | call :: calls => ∃ rule, found = [rule] ∧ rule.categoryId = call.categoryId ∧
      rule.source = call.source ∧
        rule.rawDescriptionSeen = String.ofList (call.description.toList.take 255) ∧
          rule.matchCount = calls.length + 1

variable {normalizeDescription} {rules rules' : Table CategoryRule} {org : ℕ} {token : String}
  {call : LearnCall}

theorem ruleFor_eq_head? (rules : Table CategoryRule) (org : ℕ) (token : String) :
    ruleFor rules org token = (rulesFor rules org token).head? :=
  (List.head?_filter ..).symm

theorem get?_of_ruleFor {rule : CategoryRule} (h : ruleFor rules org token = some rule) :
    rules.get? rule.id = some rule ∧ rule.orgId = org ∧ rule.normalizedToken = token := by
  have hkey : rule.orgId = org ∧ rule.normalizedToken = token := by simpa using List.find?_some h
  exact ⟨Table.get?_of_mem (List.mem_of_find?_eq_some h), hkey⟩

theorem rulesFor_insert (rules : Table CategoryRule) (r : CategoryRule) (org : ℕ) (token : String) :
    rulesFor (rules.insert r) org token =
      rulesFor rules org token ++
        if r.orgId = org ∧ r.normalizedToken = token then [Row.withId rules.next r] else [] := by
  show (rules.rows ++ [Row.withId rules.next r]).filter _ = _
  rw [List.filter_append]
  refine congrArg (rulesFor rules org token ++ ·) ?_
  by_cases hr : r.orgId = org ∧ r.normalizedToken = token
  · rw [if_pos hr]
    exact List.filter_cons_of_pos (decide_eq_true hr)
  · rw [if_neg hr]
    exact List.filter_cons_of_neg (mt of_decide_eq_true hr)

/-! ### One call -/

/-- What a successful call does: nothing to no token, else it adds or overwrites one rule. -/
theorem LearnCall.serve_ok (h : call.serve normalizeDescription rules = .ok rules') :
    normalizeDescription call.description = "" ∧ rules' = rules ∨
      (ruleFor rules call.org (normalizeDescription call.description) = none ∧
        rules' = rules.insert (call.newRule normalizeDescription)) ∨
      ∃ rule, ruleFor rules call.org (normalizeDescription call.description) = some rule ∧
        rules' = rules.put (call.overwrite rule) := by
  unfold serve learnFromChoice at h
  dsimp only at h
  split_ifs at h with htoken
  · exact .inl ⟨htoken, (pure_eq_ok.mp h).symm⟩
  · rw [raiseIf_bind_eq_ok] at h
    obtain ⟨-, h⟩ := h
    cases hrule : ruleFor rules call.org (normalizeDescription call.description) with
    | none =>
      simp only [hrule, raiseIf_bind_eq_ok, pure_eq_ok] at h
      exact .inr (.inl ⟨rfl, h.2.symm⟩)
    | some rule =>
      simp only [hrule, pure_eq_ok] at h
      exact .inr (.inr ⟨rule, rfl, h.symm⟩)

/-- A call on another token, or of another organisation, leaves the rules for a token. -/
theorem rulesFor_of_not_on (h : call.serve normalizeDescription rules = .ok rules')
    (hcall : ¬call.On normalizeDescription org token) :
    rulesFor rules' org token = rulesFor rules org token := by
  rcases LearnCall.serve_ok h with ⟨-, rfl⟩ | ⟨-, rfl⟩ | ⟨rule, hrule, rfl⟩
  · rfl
  · rw [rulesFor_insert, if_neg, List.append_nil]
    exact hcall
  · obtain ⟨hget, horg, htoken⟩ := get?_of_ruleFor hrule
    have hkey : ¬(rule.orgId = org ∧ rule.normalizedToken = token) := by
      rw [horg, htoken]
      exact hcall
    exact Table.filter_put_of_not hget (mt of_decide_eq_true hkey) (mt of_decide_eq_true hkey)

/-- A call on the token makes the one rule, or overwrites it and counts one more. -/
theorem learned_of_on (h : call.serve normalizeDescription rules = .ok rules')
    (hcall : call.On normalizeDescription org token) (htoken : token ≠ "")
    {calls : List LearnCall} (hlearned : Learned (rulesFor rules org token) calls) :
    Learned (rulesFor rules' org token) (call :: calls) := by
  obtain ⟨rfl, rfl⟩ := hcall
  rcases LearnCall.serve_ok h with ⟨hempty, -⟩ | ⟨hnone, rfl⟩ | ⟨rule, hrule, rfl⟩
  · exact absurd hempty htoken
  · have hfound : rulesFor rules call.org (normalizeDescription call.description) = [] := by
      rwa [ruleFor_eq_head?, List.head?_eq_none_iff] at hnone
    cases calls with
    | nil =>
      have hone : rulesFor (rules.insert (call.newRule normalizeDescription)) call.org
          (normalizeDescription call.description) =
            [Row.withId rules.next (call.newRule normalizeDescription)] := by
        rw [rulesFor_insert, hfound, if_pos ⟨rfl, rfl⟩, List.nil_append]
      exact ⟨_, hone, rfl, rfl, rfl, rfl⟩
    | cons last calls =>
      obtain ⟨rule, hone, -⟩ := hlearned
      rw [hfound] at hone
      cases hone
  · obtain ⟨hget, horg, hkey⟩ := get?_of_ruleFor hrule
    cases calls with
    | nil =>
      rw [ruleFor_eq_head?, hlearned] at hrule
      cases hrule
    | cons last calls =>
      obtain ⟨rule', hone, -, -, -, hcount⟩ := hlearned
      rw [ruleFor_eq_head?, hone, List.head?_cons] at hrule
      obtain rfl : rule = rule' := (Option.some.inj hrule).symm
      have hput : rulesFor (rules.put (call.overwrite rule)) call.org
          (normalizeDescription call.description) = [call.overwrite rule] := by
        have hrule : rule.orgId = call.org ∧
            rule.normalizedToken = normalizeDescription call.description := ⟨horg, hkey⟩
        have hput := Table.filter_put_of_mem (a := call.overwrite rule)
          (p := fun r => r.orgId = call.org ∧
            r.normalizedToken = normalizeDescription call.description)
          hget (decide_eq_true hrule) (decide_eq_true hrule)
        refine hput.trans ((congrArg (List.map _) hone).trans ?_)
        rw [List.map_singleton]
        exact congrArg ([·]) (if_pos rfl)
      exact ⟨_, hput, rfl, rfl, rfl, congrArg (· + 1) hcount⟩

/-! ### Sequences of calls -/

/-- The rules for a token after any sequence of successful calls. -/
theorem learned_of_calls (htoken : token ≠ "") :
    ∀ {calls past : List LearnCall} {rules rules' : Table CategoryRule},
      Learned (rulesFor rules org token) past →
        calls.foldlM (LearnCall.serve normalizeDescription) rules = .ok rules' →
          Learned (rulesFor rules' org token)
            ((calls.filter (LearnCall.On normalizeDescription org token)).reverse ++ past)
  | [], past, rules, rules', hpast, h => by
      obtain rfl := pure_eq_ok.mp h
      exact hpast
  | call :: calls, past, rules, rules', hpast, h => by
      rw [List.foldlM_cons, bind_eq_ok] at h
      obtain ⟨mid, hcall, hrest⟩ := h
      by_cases hon : call.On normalizeDescription org token
      · have hmid := learned_of_on hcall hon htoken hpast
        have hlearned := learned_of_calls htoken hmid hrest
        rw [List.filter_cons_of_pos (by simpa using hon), List.reverse_cons, List.append_assoc]
        exact hlearned
      · have hmid : Learned (rulesFor mid org token) past := by
          rwa [rulesFor_of_not_on hcall hon]
        rw [List.filter_cons_of_neg (by simpa using hon)]
        exact learned_of_calls htoken hmid hrest

/-- The answer for a description depends on the rules for its token only. -/
theorem inferCategory_congr {dictionary : List MerchantDictionaryEntry}
    {categories : Table Category} {description : String}
    (h : rulesFor rules' org (normalizeDescription description) =
      rulesFor rules org (normalizeDescription description)) :
    inferCategory normalizeDescription rules' dictionary categories org description =
      inferCategory normalizeDescription rules dictionary categories org description := by
  unfold inferCategory
  simp only [ruleFor_eq_head?, h]

/-- After any sequence of successful choices, from rules without one of the organisation, a
description whose token was chosen for gets the category of the last choice for that token from the
one rule for it, which counts these choices; and a choice for another token changes no answer. -/
theorem inferCategory_of_calls (normalizeDescription : String → String) (org : ℕ)
    (calls : List LearnCall) (rules₀ rules : Table CategoryRule)
    (hrules₀ : ∀ r ∈ rules₀.rows, r.orgId ≠ org)
    (hcalls : calls.foldlM (LearnCall.serve normalizeDescription) rules₀ = .ok rules)
    (dictionary : List MerchantDictionaryEntry) (categories : Table Category)
    (description : String) (htoken : normalizeDescription description ≠ "") :
    let taught := calls.filter
      (LearnCall.On normalizeDescription org (normalizeDescription description))
    (∀ last ∈ taught.getLast?,
      inferCategory normalizeDescription rules dictionary categories org description =
          (some last.categoryId, .orgRule) ∧
        ∃ rule, rulesFor rules org (normalizeDescription description) = [rule] ∧
          rule.matchCount = taught.length) ∧
      ∀ (other : LearnCall) (rules' : Table CategoryRule),
        other.serve normalizeDescription rules = .ok rules' →
        ¬other.On normalizeDescription org (normalizeDescription description) →
          inferCategory normalizeDescription rules' dictionary categories org description =
            inferCategory normalizeDescription rules dictionary categories org description := by
  intro taught
  refine ⟨fun last hlast => ?_, fun other rules' hother hon => ?_⟩
  · have hnone : Learned (rulesFor rules₀ org (normalizeDescription description)) [] :=
      List.filter_eq_nil_iff.mpr fun r hr => by simp [hrules₀ r hr]
    have hlearned : Learned (rulesFor rules org (normalizeDescription description))
        (taught.reverse ++ []) :=
      learned_of_calls htoken hnone hcalls
    obtain ⟨front, hfront⟩ := List.getLast?_eq_some_iff.mp hlast
    rw [hfront, List.append_nil, List.reverse_append] at hlearned
    obtain ⟨rule, hone, hcategory, -, -, hcount⟩ := hlearned
    refine ⟨?_, rule, hone, ?_⟩
    · have hrule : ruleFor rules org (normalizeDescription description) = some rule := by
        rw [ruleFor_eq_head?, hone, List.head?_cons]
      simp only [inferCategory, if_neg htoken, hrule, hcategory]
    · rw [hcount, hfront]
      simp
  · exact inferCategory_congr (rulesFor_of_not_on hother hon)

/-- An organisation with two categories. -/
def sampleChoiceDb : Db where
  accountTypes := .empty
  accounts := .empty
  categories := (Table.empty.insert { orgId := 1, name := "Food" }).insert
    { orgId := 1, name := "Fun" }
  transactions := .empty
  recurring := .empty
  importBatches := .empty

/-- A description without the number of the shop. -/
def sampleNormalize (description : String) : String :=
  if description = "CAFE 0017" ∨ description = "CAFE 0042" then "CAFE" else description

def sampleChoice (description : String) (categoryId : ℕ) : LearnCall where
  db := sampleChoiceDb
  org := 1
  description := description
  categoryId := categoryId
  source := .userEdit

def sampleChoices : List LearnCall :=
  [sampleChoice "CAFE 0017" 1, sampleChoice "CINEMA" 2, sampleChoice "CAFE 0042" 2]

/-- The second choice for the token stands, against the shared dictionary. -/
theorem inferCategory_of_sampleChoices :
    ∃ rules, sampleChoices.foldlM (LearnCall.serve sampleNormalize) .empty = .ok rules ∧
      inferCategory sampleNormalize rules [⟨"CAFE", "food"⟩] sampleChoiceDb.categories 1
        "CAFE 0017" = (some 2, .orgRule) :=
  ⟨_, rfl, ((inferCategory_of_calls sampleNormalize 1 sampleChoices .empty _ (by simp [Table.empty])
    rfl [⟨"CAFE", "food"⟩] sampleChoiceDb.categories "CAFE 0017" (by decide)).1
      (sampleChoice "CAFE 0042" 2) (by rfl)).1⟩

end Pfv
