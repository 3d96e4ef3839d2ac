import Pfv.Services.RefreshCookies

/-!
# Several refresh cookies in one request

The values of the cookie that pass their check decide as whom a request is authenticated: as the
user of all of them, by the newest, or not at all when they belong to different users. A value whose
check fails on Redis decides only what is answered when no value passes. As the user of such a value
is not looked at, a valid value of another user authenticates the request.

## Main definitions

* `presentedValues`: the values of a header with the reads that fail while each is checked.
* `CookiesJudged`: what the values of a request decide.
* `CookiesCompared`: the values that passed are compared with each other, and with no others.
* `CookiesIsolated`: a value that could not be checked keeps other users out.

## Main results

* `CookieLoop.choose_cases`: the choice among the values that passed.
* `cookiesCompared`: for every header, every state and every choice of failing reads.
-/

namespace Pfv

/-! ### The loop -/

namespace CookieLoop

theorem foldl_successes (rs : List (Except HttpException ValidatedSession)) (l : CookieLoop) :
    (rs.foldl collect l).successes = l.successes ++ rs.filterMap Except.toOption := by
  induction rs generalizing l with
  | nil => simp
  | cons r rs ih =>
    rw [List.foldl_cons, ih]
    cases r with
    | error exc => rw [List.filterMap_cons_none (by rfl)]; rfl
    | ok session => rw [List.filterMap_cons_some (by rfl)]; simp [collect]

/-- A server error of a check. -/
def serverError? : Except HttpException ValidatedSession → Option HttpException
  | .error exc => if 500 ≤ exc.status then some exc else none
  | .ok _ => none

/-- The loop remembers the first server error. -/
theorem foldl_transientExc (rs : List (Except HttpException ValidatedSession)) (l : CookieLoop) :
    (rs.foldl collect l).transientExc = l.transientExc.or (rs.findSome? serverError?) := by
  induction rs generalizing l with
  | nil => simp
  | cons r rs ih =>
    rw [List.foldl_cons, ih]
    cases r with
    | ok session => rfl
    | error exc =>
      by_cases hstatus : 500 ≤ exc.status <;> cases htransient : l.transientExc <;>
        simp [collect, serverError?, hstatus, htransient]

/-- The values that passed belong to different users, or the newest of them is chosen. -/
theorem choose_cases {l : CookieLoop} (hne : l.successes ≠ []) :
    (∃ a ∈ l.successes, ∃ b ∈ l.successes, a.userId ≠ b.userId ∧
      l.choose = .error ambiguousSession) ∨
    ∃ b ∈ l.successes, l.choose = .ok b ∧
      ∀ a ∈ l.successes, a.userId = b.userId ∧ a.issuedAt ≤ b.issuedAt := by
  have hchoose : l.choose = (do
      raiseIf (1 < (l.successes.map (·.userId)).dedup.length) ambiguousSession
      orRaise (l.successes.insertionSort fun a b => b.issuedAt ≤ a.issuedAt).head?
        ⟨500, "IndexError"⟩) := by
    unfold choose
    split
    · next hnil => exact absurd hnil hne
    · rfl
  have hdistinct : 1 < (l.successes.map (·.userId)).dedup.length ↔
      ∃ a ∈ l.successes, ∃ b ∈ l.successes, a.userId ≠ b.userId := by
    rw [← List.card_toFinset, Finset.one_lt_card]
    simp
  by_cases hmany : 1 < (l.successes.map (·.userId)).dedup.length
  · obtain ⟨a, ha, b, hb, hab⟩ := hdistinct.mp hmany
    refine .inl ⟨a, ha, b, hb, hab, ?_⟩
    rw [hchoose, raiseIf_of hmany]
    rfl
  · rw [raiseIf_of_not hmany] at hchoose
    have hsorted := List.pairwise_insertionSort
      (fun a b : ValidatedSession => b.issuedAt ≤ a.issuedAt) l.successes
    have hperm := List.perm_insertionSort
      (fun a b : ValidatedSession => b.issuedAt ≤ a.issuedAt) l.successes
    cases hsort : l.successes.insertionSort fun a b => b.issuedAt ≤ a.issuedAt with
    | nil =>
      rw [hsort] at hperm
      exact absurd hperm.nil_eq.symm hne
    | cons b rest =>
      rw [hsort] at hsorted hperm hchoose
      have hb : b ∈ l.successes := hperm.mem_iff.mp List.mem_cons_self
      refine .inr ⟨b, hb, hchoose, fun a ha => ⟨?_, ?_⟩⟩
      · by_contra hab
        exact hmany (hdistinct.mpr ⟨a, ha, b, hb, hab⟩)
      · rcases List.mem_cons.mp (hperm.mem_iff.mpr ha) with rfl | hrest
        · exact le_rfl
        · exact List.rel_of_pairwise_cons hsorted hrest

end CookieLoop

/-! ### What the values decide -/

/-- As whom a request is authenticated. -/
def authenticatedAs (r : Except HttpException ValidatedSession) : Option ℕ :=
  r.toOption.map (·.userId)

/-- The values of the cookie, with the reads that fail while each is checked. -/
def presentedValues (header : Option String) (fails : ℕ → ReadFailures) :
    List (String × ReadFailures) :=
  (extractRefreshCookies header).mapIdx fun i value => (value, fails i)

section

variable (s : CookieState) (decode : String → Option RefreshPayload)
  (values : List (String × ReadFailures))

/-- The check of a presented value. -/
def CookieState.check (v : String × ReadFailures) : Except HttpException ValidatedSession :=
  s.validateSingleRefreshToken decode v.2 v.1

/-- What the values of a request decide: values of two users authenticate nobody, values of one user
authenticate the user by the newest; when no value passes, a server error of a check is answered
rather than a refusal; and the order of the values does not matter. -/
structure CookiesJudged : Prop where
  ambiguous : ∀ v ∈ values, ∀ w ∈ values, ∀ a b, s.check decode v = .ok a →
    s.check decode w = .ok b → a.userId ≠ b.userId →
    authenticatedAs (s.validateRefreshCookie decode values) = none
  newest : ∀ v ∈ values, ∀ a, s.check decode v = .ok a →
    (∀ w ∈ values, ∀ b, s.check decode w = .ok b → b.userId = a.userId) →
    ∃ w ∈ values, ∃ b, s.check decode w = .ok b ∧ s.validateRefreshCookie decode values = .ok b ∧
      ∀ x ∈ values, ∀ c, s.check decode x = .ok c → c.issuedAt ≤ b.issuedAt
  retryable : (∀ v ∈ values, ∀ a, s.check decode v ≠ .ok a) →
    (∃ v ∈ values, ∃ exc, s.check decode v = .error exc ∧ 500 ≤ exc.status) →
    ∃ v ∈ values, ∃ exc, s.check decode v = .error exc ∧ 500 ≤ exc.status ∧
      s.validateRefreshCookie decode values = .error exc
  order : ∀ values' : List (String × ReadFailures), values'.Perm values →
    authenticatedAs (s.validateRefreshCookie decode values') =
      authenticatedAs (s.validateRefreshCookie decode values)

/-- The values that passed are compared with each other: a request is authenticated as a user when
some value of the user passed and no value of another user did. -/
structure CookiesCompared : Prop extends CookiesJudged s decode values where
  compared : ∀ u, authenticatedAs (s.validateRefreshCookie decode values) = some u ↔
    (∃ v ∈ values, ∃ a, s.check decode v = .ok a ∧ a.userId = u) ∧
      ∀ v ∈ values, ∀ a, s.check decode v = .ok a → a.userId = u

/-- A value whose check ended in a server error does not let the request be authenticated as another
user than its own. -/
structure CookiesIsolated : Prop extends CookiesJudged s decode values where
  unchecked : ∀ v ∈ values, ∀ exc, s.check decode v = .error exc → 500 ≤ exc.status →
    ∀ payload, decode v.1 = some payload →
      ∀ u, authenticatedAs (s.validateRefreshCookie decode values) = some u → u = payload.sub

end

section

variable {s : CookieState} {decode : String → Option RefreshPayload}
  {values : List (String × ReadFailures)}

/-- The loop over the values of a request. -/
def CookieState.loop (s : CookieState) (decode : String → Option RefreshPayload)
    (values : List (String × ReadFailures)) : CookieLoop :=
  (values.map (s.check decode)).foldl CookieLoop.collect {}

theorem validateRefreshCookie_eq (hne : values ≠ []) :
    s.validateRefreshCookie decode values = (s.loop decode values).choose := by
  rw [CookieState.validateRefreshCookie, if_neg hne, CookieState.loop, List.foldl_map]
  rfl

theorem mem_loop_successes {a : ValidatedSession} :
    a ∈ (s.loop decode values).successes ↔ ∃ v ∈ values, s.check decode v = .ok a := by
  rw [CookieState.loop, CookieLoop.foldl_successes]
  simp only [List.nil_append, List.mem_filterMap, List.mem_map, exists_exists_and_eq_and]
  refine exists_congr fun v => and_congr_right fun _ => ?_
  cases s.check decode v <;> simp [Except.toOption]

theorem loop_successes_eq_nil (h : ∀ v ∈ values, ∀ a, s.check decode v ≠ .ok a) :
    (s.loop decode values).successes = [] := by
  refine List.eq_nil_iff_forall_not_mem.mpr fun a ha => ?_
  obtain ⟨v, hv, hcheck⟩ := mem_loop_successes.mp ha
  exact h v hv a hcheck

/-- What becomes of the values of a request: none passes, two users are among those that pass, or
the newest of the values of one user is chosen. -/
theorem validateRefreshCookie_cases (s : CookieState) (decode : String → Option RefreshPayload)
    (values : List (String × ReadFailures)) :
    ((∀ v ∈ values, ∀ a, s.check decode v ≠ .ok a) ∧
      ∃ exc, s.validateRefreshCookie decode values = .error exc) ∨
    (∃ v ∈ values, ∃ w ∈ values, ∃ a b, s.check decode v = .ok a ∧ s.check decode w = .ok b ∧
      a.userId ≠ b.userId ∧ s.validateRefreshCookie decode values = .error ambiguousSession) ∨
    ∃ w ∈ values, ∃ b, s.check decode w = .ok b ∧ s.validateRefreshCookie decode values = .ok b ∧
      ∀ v ∈ values, ∀ a, s.check decode v = .ok a →
        a.userId = b.userId ∧ a.issuedAt ≤ b.issuedAt := by
  by_cases hnone : ∀ v ∈ values, ∀ a, s.check decode v ≠ .ok a
  · refine .inl ⟨hnone, ?_⟩
    by_cases hvalues : values = []
    · exact ⟨_, if_pos hvalues⟩
    · rw [validateRefreshCookie_eq hvalues, CookieLoop.choose, loop_successes_eq_nil hnone]
      dsimp only
      split <;> exact ⟨_, rfl⟩
  · push Not at hnone
    obtain ⟨v, hv, a, hcheck⟩ := hnone
    have hne : (s.loop decode values).successes ≠ [] :=
      List.ne_nil_of_mem (mem_loop_successes.mpr ⟨v, hv, hcheck⟩)
    rw [validateRefreshCookie_eq (List.ne_nil_of_mem hv)]
    rcases CookieLoop.choose_cases hne with ⟨a, ha, b, hb, hab, hchoose⟩ | ⟨b, hb, hchoose, hall⟩
    · obtain ⟨v, hv, hva⟩ := mem_loop_successes.mp ha
      obtain ⟨w, hw, hwb⟩ := mem_loop_successes.mp hb
      exact .inr (.inl ⟨v, hv, w, hw, a, b, hva, hwb, hab, hchoose⟩)
    · obtain ⟨w, hw, hwb⟩ := mem_loop_successes.mp hb
      exact .inr (.inr ⟨w, hw, b, hwb, hchoose, fun v hv a hva =>
        hall a (mem_loop_successes.mpr ⟨v, hv, hva⟩)⟩)

/-- As whom a request is authenticated: as the user of all values that pass, if there are any. -/
theorem authenticatedAs_eq_some {u : ℕ} :
    authenticatedAs (s.validateRefreshCookie decode values) = some u ↔
      (∃ v ∈ values, ∃ a, s.check decode v = .ok a ∧ a.userId = u) ∧
        ∀ v ∈ values, ∀ a, s.check decode v = .ok a → a.userId = u := by
  rcases validateRefreshCookie_cases s decode values with ⟨hnone, exc, hresult⟩ |
    ⟨v, hv, w, hw, a, b, hva, hwb, hab, hresult⟩ | ⟨w, hw, b, hwb, hresult, hall⟩ <;> rw [hresult]
  · refine iff_of_false (by simp [authenticatedAs, Except.toOption]) ?_
    rintro ⟨⟨v, hv, a, hva, -⟩, -⟩
    exact hnone v hv a hva
  · refine iff_of_false (by simp [authenticatedAs, Except.toOption]) ?_
    rintro ⟨-, hsame⟩
    exact hab ((hsame v hv a hva).trans (hsame w hw b hwb).symm)
  · have huser : authenticatedAs (.ok b) = some b.userId := rfl
    rw [huser, Option.some_inj]
    constructor
    · rintro rfl
      exact ⟨⟨w, hw, b, hwb, rfl⟩, fun v hv a hva => (hall v hv a hva).1⟩
    · rintro ⟨-, hsame⟩
      exact hsame w hw b hwb

/-- When no value passes, the first server error of a check is answered. -/
theorem validateRefreshCookie_retryable (hnone : ∀ v ∈ values, ∀ a, s.check decode v ≠ .ok a)
    (herror : ∃ v ∈ values, ∃ exc, s.check decode v = .error exc ∧ 500 ≤ exc.status) :
    ∃ v ∈ values, ∃ exc, s.check decode v = .error exc ∧ 500 ≤ exc.status ∧
      s.validateRefreshCookie decode values = .error exc := by
  obtain ⟨v, hv, exc, hcheck, hstatus⟩ := herror
  have hsome : ((values.map (s.check decode)).findSome? CookieLoop.serverError?).isSome := by
    rw [List.findSome?_isSome_iff]
    exact ⟨s.check decode v, List.mem_map_of_mem hv, by
      rw [hcheck, CookieLoop.serverError?, if_pos hstatus, Option.isSome_some]⟩
  obtain ⟨first, hfirst⟩ := Option.isSome_iff_exists.mp hsome
  obtain ⟨r, hr, hserver⟩ := List.exists_of_findSome?_eq_some hfirst
  obtain ⟨w, hw, rfl⟩ := List.mem_map.mp hr
  have htransient : (s.loop decode values).transientExc = some first := by
    rw [CookieState.loop, CookieLoop.foldl_transientExc, hfirst]
    rfl
  have hresult : s.validateRefreshCookie decode values = .error first := by
    rw [validateRefreshCookie_eq (List.ne_nil_of_mem hv), CookieLoop.choose,
      loop_successes_eq_nil hnone, htransient]
    rfl
  cases hcheckw : s.check decode w with
  | ok a => exact absurd hcheckw (hnone w hw a)
  | error exc' =>
    rw [hcheckw, CookieLoop.serverError?, Option.ite_none_right_eq_some] at hserver
    obtain ⟨hstatus', hexc⟩ := hserver
    obtain rfl := Option.some_inj.mp hexc
    exact ⟨w, hw, exc', hcheckw, hstatus', hresult⟩

end

/-- What several refresh cookies decide, for every header, every state of the users and of Redis and
every choice of the reads that fail. -/
theorem cookiesCompared (s : CookieState) (decode : String → Option RefreshPayload)
    (header : Option String) (fails : ℕ → ReadFailures) :
    CookiesCompared s decode (presentedValues header fails) where
  ambiguous v hv w hw a b hva hwb hab := by
    by_contra hsome
    obtain ⟨u, hu⟩ := Option.ne_none_iff_exists'.mp hsome
    obtain ⟨-, hall⟩ := authenticatedAs_eq_some.mp hu
    exact hab ((hall v hv a hva).trans (hall w hw b hwb).symm)
  newest v hv a hva hsame := by
    rcases validateRefreshCookie_cases s decode (presentedValues header fails) with ⟨hnone, -⟩ |
      ⟨x, hx, y, hy, c, d, hxc, hyd, hcd, -⟩ | ⟨w, hw, b, hwb, hresult, hall⟩
    · exact absurd hva (hnone v hv a)
    · exact absurd ((hsame x hx c hxc).trans (hsame y hy d hyd).symm) hcd
    · exact ⟨w, hw, b, hwb, hresult, fun x hx c hxc => (hall x hx c hxc).2⟩
  retryable hnone herror := validateRefreshCookie_retryable hnone herror
  order values' hperm := by
    refine Option.ext fun u => ?_
    simp only [authenticatedAs_eq_some, hperm.mem_iff]
  compared u := authenticatedAs_eq_some

/-! ### A sample request -/

/-- Two users with a session each; the ids of the session and of its token are those of the user. -/
def sampleCookieState : CookieState where
  redis :=
    { clock := 0
      primary := fun jti => if jti ∈ [1, 2] then some ⟨⟨jti, jti⟩, 1⟩ else none
      family := fun sid => if sid ∈ [1, 2] then some ⟨{sid}, 1⟩ else none }
  users := fun id => if id ∈ [1, 2] then some {} else none
  sessionTtlSeconds := fun _ => 1

/-- The claims of the refresh token of a user. -/
def samplePayload (sub : ℕ) : RefreshPayload :=
  { type := "refresh", sub := sub, iat := some 0, jti := some sub, sid := some sub
    sessionCreatedAt := none }

def sampleDecode : String → Option RefreshPayload
  | "one" => some (samplePayload 1)
  | "two" => some (samplePayload 2)
  | _ => none

def sampleCookieHeader : String := "theme=dark; refresh_token=one; refresh_token=two"

/-- The read of the key of the second value fails. -/
def sampleFailures (i : ℕ) : ReadFailures := { primary := i = 1 }

/-- With both values checked the sample request is refused; when the value of the second user cannot
be checked, it is authenticated as the first. -/
theorem sampleCookies_not_isolated :
    authenticatedAs (sampleCookieState.validateRefreshCookie sampleDecode
      (presentedValues (some sampleCookieHeader) fun _ => {})) = none ∧
    authenticatedAs (sampleCookieState.validateRefreshCookie sampleDecode
      (presentedValues (some sampleCookieHeader) sampleFailures)) = some 1 ∧
    ¬CookiesIsolated sampleCookieState sampleDecode
      (presentedValues (some sampleCookieHeader) sampleFailures) := by
  have hvalues : presentedValues (some sampleCookieHeader) sampleFailures =
      [("one", {}), ("two", { primary := true })] := by
    decide +kernel
  have huser : authenticatedAs (sampleCookieState.validateRefreshCookie sampleDecode
      (presentedValues (some sampleCookieHeader) sampleFailures)) = some 1 := by
    rw [hvalues]
    decide +kernel
  refine ⟨by decide +kernel, huser, fun h => ?_⟩
  have hcheck : sampleCookieState.check sampleDecode ("two", { primary := true }) =
      .error redisUnavailable := by
    decide +kernel
  have hsub := h.unchecked ("two", { primary := true }) (by rw [hvalues]; simp) redisUnavailable
    hcheck (by decide) (samplePayload 2) rfl 1 huser
  exact absurd hsub (by decide)

end Pfv
