import Pfv.Frontend.Api

/-!
# One refresh at a time

Whatever the order of the steps, the calls that wait for a refresh wait for the same one: there is
one sequence in progress at most, the promise is there as long as somebody waits for it, and every
token is cleared with the event once at most. A call that waits for the probe clears whatever token
is in memory then, though. The token of a login that comes after the terminal answer is cleared when
the probe finds the old session dead, or when somebody already holds such a finding.

## Main definitions

* `Page.Singleflight`: what should hold on a page.
* `Move.Timely`: no finding that the session is dead meets the token of a later login.

## Main results

* `Page.Change`, `Page.change_step`: what a step does.
* `Page.Shares`, `Page.Counts`, `Page.Tails`: what every step keeps.
* `Page.singleflight_of_timely`: a run of timely moves.
* `Page.timely_iff`: a move that is not timely leads to the loss of a login.
-/

namespace Pfv

/-! ### What should hold -/

/-- The promise is not settled. -/
def SequenceState.IsOpen (state : SequenceState) : Prop := ∀ result, state ≠ .settled result

/-- The sequence has ended with a 401 or 403. -/
def SequenceState.IsTerminal (state : SequenceState) : Prop :=
  state = .settled .terminal ∨ ∃ n, state = .returned n .terminal

/-- The refresh that a call waits for. -/
def ApiCall.awaited (c : ApiCall) : Option ℕ :=
  match c.state with
  | .preflight q => some q
  | .refreshing q => some q
  | _ => none

/-- The call waits neither for a refresh nor for a probe. -/
def ApiCall.Quiet (c : ApiCall) : Prop := c.awaited = none ∧ ∀ m q, c.state ≠ .probing m q

namespace Page

/-- A sequence is in progress. -/
def InProgress (s : Page) (q : ℕ) : Prop := ∃ r, s.sequences[q]? = some r ∧ r.state.IsOpen

/-- The number of tokens that were installed when a sequence ended terminally. -/
def endedAt (s : Page) (q : ℕ) : Option ℕ := s.sequences[q]?.bind RefreshSequence.endedAt

/-- A sequence ended terminally before a token was installed. -/
def EndedBefore (s : Page) (q n : ℕ) : Prop := ∃ k ∈ s.endedAt q, k ≤ n

/-- At most one sequence is in progress, the promise has somebody who waits for it, no token is
cleared with the event twice, and none that a login installed is cleared on account of a sequence
that ended before. -/
structure Singleflight (s : Page) : Prop where
  oneSequence : ∀ q q', s.InProgress q → s.InProgress q' → q = q'
  promiseAwaited : ∀ q, s.refreshPromise = some q → ∃ c ∈ s.calls, c.awaited = some q
  onceEach : (s.cleared.map Prod.fst).Nodup
  loginKept : ∀ n q, (n, q) ∈ s.cleared → n ∈ s.byLogin → ¬s.EndedBefore q n

/-- A probe has found the session dead. -/
def FoundDead (s : Page) (m : ℕ) : Prop :=
  s.probes[m]? = some (.answered false) ∨ s.probes[m]? = some (.finished false)

/-- The token in memory is that of a login after the sequence ended. -/
def LaterLogin (s : Page) (q : ℕ) : Prop :=
  ∃ n, s.accessToken = some n ∧ n ∈ s.byLogin ∧ s.EndedBefore q n

end Page

/-- A login comes when no call waits with the finding that the session is dead, and a call gets such
a finding, from the server or from a probe that it joins, when no login has come since its sequence
ended. -/
def Move.Timely (s : Page) : Move → Prop
  | .setAccessToken true => ∀ c ∈ s.calls, ∀ m q, c.state = .probing m q → ¬s.FoundDead m
  | .probeResponse m status => s.probes[m]? = some .pending → status ≠ some 200 →
      ∀ c ∈ s.calls, ∀ q, c.state = .probing m q → ¬s.LaterLogin q
  | .resume i => ∀ c ∈ s.calls[i]?, ∀ q, c.state = .refreshing q → s.result q = some .terminal →
      ∀ m, s.mePromise = some m → s.FoundDead m → ¬s.LaterLogin q
  | _ => True

/-! ### What a step does -/

namespace Page

/-- What a move does. -/
inductive Change (s : Page) : Move → Page → Prop
  | same (m : Move) : Change s m s
  | login : Change s (.setAccessToken true) (s.setAccessToken true)
  | logout : Change s (.setAccessToken false) (s.setAccessToken false)
  | addCall (m : Move) {c : ApiCall} (h : c.Quiet) : Change s m (s.addCall c)
  | joinNew (m : Move) {c : ApiCall} (h : c.awaited = some s.sharedPromise)
      (hprobing : ∀ m q, c.state ≠ .probing m q) : Change s m (s.share.addCall c)
  | putCall (m : Move) {i : ℕ} {c c' : ApiCall} (hc : s.calls[i]? = some c) (h : c.awaited = none)
      (h' : c'.Quiet) : Change s m (s.putCall i c')
  | join (m : Move) {i : ℕ} {c c' : ApiCall} (hc : s.calls[i]? = some c) (h : c.awaited = none)
      (h' : c'.awaited = some s.sharedPromise) (hprobing : ∀ m q, c'.state ≠ .probing m q) :
      Change s m (s.share.putCall i c')
  | leave (m : Move) {i q : ℕ} {c c' : ApiCall} {result : RefreshResult}
      (hc : s.calls[i]? = some c) (h : c.awaited = some q) (hresult : s.result q = some result)
      (h' : c'.Quiet) : Change s m ((s.release q).putCall i c')
  | probe {i q : ℕ} {path : Option String} (hc : s.calls[i]? = some ⟨path, .refreshing q⟩)
      (hresult : s.result q = some .terminal) :
      Change s (.resume i) ((s.release q).shareProbe.putCall i ⟨path, .probing s.sharedProbe q⟩)
  | sequence (m : Move) {q : ℕ} {r : RefreshSequence} {state : SequenceState}
      (hr : s.sequences[q]? = some r) (hopen : r.state.IsOpen)
      (hterminal : state.IsTerminal → r.state.IsTerminal) :
      Change s m (s.putSequence q ⟨state, r.endedAt⟩)
  | endSequence (m : Move) {q : ℕ} {r : RefreshSequence} {state : SequenceState}
      (hr : s.sequences[q]? = some r) (hopen : r.state.IsOpen) :
      Change s m (s.putSequence q ⟨state, some s.installed⟩)
  | install (m : Move) {q : ℕ} {r : RefreshSequence} {state : SequenceState}
      (hr : s.sequences[q]? = some r) (hopen : r.state.IsOpen) (hterminal : ¬state.IsTerminal) :
      Change s m (s.install.putSequence q ⟨state, r.endedAt⟩)
  | answer {m : ℕ} {status : Option ℕ} (h : s.probes[m]? = some .pending) :
      Change s (.probeResponse m status)
        { s with probes := s.probes.set m (.answered (status = some 200)) }
  | finish {m : ℕ} {alive : Bool} (h : s.probes[m]? = some (.answered alive)) :
      Change s (.probeFinally m)
        { s with probes := s.probes.set m (.finished alive), mePromise := none }
  | clear {i m q : ℕ} {path : Option String} (hc : s.calls[i]? = some ⟨path, .probing m q⟩)
      (h : s.probes[m]? = some (.finished false)) :
      Change s (.resumeProbed i) ((s.clear q).putCall i ⟨path, .finished⟩)

theorem quiet_of {path : Option String} {state : CallState}
    (h : ∀ q, state ≠ .preflight q ∧ state ≠ .refreshing q) (h' : ∀ m q, state ≠ .probing m q) :
    ApiCall.Quiet ⟨path, state⟩ := by
  refine ⟨?_, h'⟩
  cases state with
  | preflight q => exact absurd rfl (h q).1
  | refreshing q => exact absurd rfl (h q).2
  | _ => rfl

theorem change_step (s : Page) (m : Move) : s.Change m (s.step m) := by
  cases m with
  | setAccessToken installs =>
    cases installs with
    | true => exact .login
    | false => exact .logout
  | ensureFresh near =>
    rw [step]
    split_ifs
    · exact .joinNew _ rfl (by simp)
    · exact .same _
  | apiFetch path near =>
    rw [step]
    split_ifs
    · exact .addCall _ (quiet_of (by simp) (by simp))
    · exact .joinNew _ rfl (by simp)
    · exact .addCall _ (quiet_of (by simp) (by simp))
  | send i =>
    rw [step]
    split
    · rename_i hc
      exact .putCall _ hc rfl (quiet_of (by simp) (by simp))
    · exact .same _
  | respond i status =>
    rw [step]
    split
    · rename_i hc
      split_ifs
      · exact .join _ hc rfl rfl (by simp)
      · exact .putCall _ hc rfl (quiet_of (by simp) (by simp))
    · exact .same _
  | resume i =>
    rw [step]
    split
    · rename_i hc
      split
      · rename_i hresult
        refine .leave _ hc rfl hresult (quiet_of (fun q => ?_) fun m q => ?_) <;> split_ifs <;> simp
      · exact .same _
    · rename_i hc
      split
      · rename_i result hresult
        cases result with
        | ok => exact .leave _ hc rfl hresult (quiet_of (by simp) (by simp))
        | terminal => exact .probe hc hresult
        | transient => exact .leave _ hc rfl hresult (quiet_of (by simp) (by simp))
        | thrown => exact .leave _ hc rfl hresult (quiet_of (by simp) (by simp))
      · exact .same _
    · exact .same _
  | retried i =>
    rw [step]
    split
    · rename_i hc
      exact .putCall _ hc rfl (quiet_of (by simp) (by simp))
    · exact .same _
  | refreshResponse q status =>
    rw [step]
    split
    · rename_i hr
      have hopen {n : ℕ} : (SequenceState.fetching n).IsOpen := by simp [SequenceState.IsOpen]
      unfold refreshResponse
      split
      · exact .sequence _ hr hopen (by simp [SequenceState.IsTerminal])
      · split_ifs
        · exact .endSequence _ hr hopen
        · exact .sequence _ hr hopen (by simp [SequenceState.IsTerminal])
        · exact .sequence _ hr hopen (by simp [SequenceState.IsTerminal])
    · exact .same _
  | refreshBody q body =>
    rw [step]
    split
    · rename_i hr
      have hopen {n : ℕ} : (SequenceState.reading n).IsOpen := by simp [SequenceState.IsOpen]
      cases body with
      | token => exact .install _ hr hopen (by simp [SequenceState.IsTerminal])
      | noToken => exact .sequence _ hr hopen (by simp [SequenceState.IsTerminal])
      | notObject => exact .sequence _ hr hopen (by simp [SequenceState.IsTerminal])
    · exact .same _
  | resumeRefresh q =>
    rw [step]
    split
    · rename_i hr
      refine .sequence _ hr (by simp [SequenceState.IsOpen]) fun hterminal => ?_
      unfold afterAttempt at hterminal
      split_ifs at hterminal
      · simp [SequenceState.IsTerminal] at hterminal
      · simpa [SequenceState.IsTerminal] using hterminal
    · exact .same _
  | backoffOver q =>
    rw [step]
    split
    · rename_i hr
      exact .sequence _ hr (by simp [SequenceState.IsOpen]) (by simp [SequenceState.IsTerminal])
    · exact .same _
  | probeResponse m status =>
    rw [step]
    split
    · rename_i h
      exact .answer h
    · exact .same _
  | probeFinally m =>
    rw [step]
    split
    · rename_i h
      exact .finish h
    · exact .same _
  | resumeProbed i =>
    rw [step]
    split
    · rename_i hc
      split
      · exact .putCall _ hc rfl (quiet_of (by simp) (by simp))
      · rename_i h
        exact .clear hc h
      · exact .same _
    · exact .same _

/-- Joining the refresh sets its promise and the count. -/
theorem share_eq (s : Page) : s.share = { s with
    refreshPromise := some s.sharedPromise
    refreshAwaiters := s.refreshAwaiters + 1
    sequences := s.share.sequences } := by
  obtain ⟨_, promise, _, _, _, _, _, _, _, _⟩ := s
  cases promise <;> rfl

/-- Joining the probe sets its promise. -/
theorem shareProbe_eq (s : Page) : s.shareProbe = { s with
    mePromise := some s.sharedProbe
    probes := s.shareProbe.probes } := by
  obtain ⟨_, _, _, me, _, _, _, _, _, _⟩ := s
  cases me <;> rfl

/-- Clearing the token clears it and records it. -/
theorem clear_eq (s : Page) (q : ℕ) : s.clear q = { s with
    accessToken := none
    cleared := (s.clear q).cleared } := by
  obtain ⟨token, _, _, _, _, _, _, _, _, _⟩ := s
  cases token <;> rfl

/-! ### The shared refresh -/

/-- The awaiters are the calls that wait, they all wait for the promise there is, and so does
everybody for a sequence in progress. -/
structure Shares (s : Page) : Prop where
  awaiters : s.refreshAwaiters = s.calls.countP fun c => c.awaited.isSome
  shared : ∀ c ∈ s.calls, ∀ q, c.awaited = some q → s.refreshPromise = some q
  held : ∀ q, s.refreshPromise = some q → 0 < s.refreshAwaiters ∧ q < s.sequences.length
  inProgress : ∀ q, s.InProgress q → s.refreshPromise = some q

section Shared

variable {s s' : Page} {m : Move} {i q : ℕ} {c c' : ApiCall}

theorem countP_set {l : List ApiCall} (hc : l[i]? = some c) (p : ApiCall → Bool) :
    (l.set i c').countP p + (if p c then 1 else 0) = l.countP p + if p c' then 1 else 0 := by
  obtain ⟨hi, rfl⟩ := List.getElem?_eq_some_iff.mp hc
  rw [List.countP_set hi]
  have hle : (if p l[i] then 1 else 0) ≤ l.countP p := by
    split_ifs with hp
    · exact List.countP_pos_iff.mpr ⟨l[i], List.getElem_mem hi, hp⟩
    · exact Nat.zero_le _
  omega

/-- Joining the refresh gives a promise that no other sequence in progress has. -/
theorem Shares.share (h : s.Shares) : s.share.refreshPromise = some s.sharedPromise ∧
    s.share.refreshAwaiters = s.refreshAwaiters + 1 ∧ s.share.calls = s.calls ∧
    s.sharedPromise < s.share.sequences.length ∧
    ∀ q, s.share.InProgress q → q = s.sharedPromise := by
  unfold Page.share sharedPromise
  cases hpromise : s.refreshPromise with
  | some p =>
    refine ⟨rfl, rfl, rfl, (h.held p hpromise).2, fun q hq => ?_⟩
    exact Option.some_inj.mp ((h.inProgress q hq).symm.trans hpromise)
  | none =>
    refine ⟨rfl, rfl, rfl, by simp, fun q ⟨r, hr, hopen⟩ => ?_⟩
    rw [List.getElem?_append] at hr
    split_ifs at hr with hlt
    · have := h.inProgress q ⟨r, hr, hopen⟩
      rw [hpromise] at this
      exact absurd this (by simp)
    · obtain ⟨hindex, -⟩ := List.getElem?_eq_some_iff.mp hr
      rw [List.length_singleton] at hindex
      exact show q = s.sequences.length by omega

/-- A call that joins the refresh, in place of one that did not wait. -/
theorem Shares.join (h : s.Shares) (hc : s.calls[i]? = some c) (hnone : c.awaited = none)
    (hjoin : c'.awaited = some s.sharedPromise) : (s.share.putCall i c').Shares := by
  obtain ⟨hpromise, hawaiters, hcalls, hlength, hprogress⟩ := h.share
  have hcount := @countP_set i c c' s.calls hc fun c => c.awaited.isSome
  simp only [hnone, hjoin, Option.isSome_none, Option.isSome_some, if_true, Bool.false_eq_true,
    if_false, add_zero] at hcount
  refine ⟨?_, fun c₀ hc₀ q hq => ?_, fun q hq => ?_, fun q hq => ?_⟩
  · change s.share.refreshAwaiters = (s.share.calls.set i c').countP _
    rw [hawaiters, hcalls, hcount, h.awaiters]
  · change s.share.refreshPromise = some q
    rw [hpromise]
    change c₀ ∈ s.share.calls.set i c' at hc₀
    rw [hcalls] at hc₀
    rcases List.mem_or_eq_of_mem_set hc₀ with hc₀ | rfl
    · have hsame := h.shared c₀ hc₀ q hq
      rw [sharedPromise, hsame]
      rfl
    · exact hjoin.symm.trans hq
  · change s.share.refreshPromise = some q at hq
    change 0 < s.share.refreshAwaiters ∧ q < s.share.sequences.length
    rw [hpromise, Option.some_inj] at hq
    exact ⟨by omega, hq ▸ hlength⟩
  · rw [hprogress q hq]
    exact hpromise

/-- A new call that joins the refresh. -/
theorem Shares.joinNew (h : s.Shares) (hjoin : c.awaited = some s.sharedPromise) :
    (s.share.addCall c).Shares := by
  obtain ⟨hpromise, hawaiters, hcalls, hlength, hprogress⟩ := h.share
  refine ⟨?_, fun c₀ hc₀ q hq => ?_, fun q hq => ?_, fun q hq => ?_⟩
  · change s.share.refreshAwaiters = (s.share.calls ++ [c]).countP _
    rw [hawaiters, hcalls, List.countP_append, h.awaiters]
    simp [hjoin]
  · change s.share.refreshPromise = some q
    rw [hpromise]
    change c₀ ∈ s.share.calls ++ [c] at hc₀
    rw [hcalls, List.mem_append, List.mem_singleton] at hc₀
    rcases hc₀ with hc₀ | rfl
    · have hsame := h.shared c₀ hc₀ q hq
      rw [sharedPromise, hsame]
      rfl
    · exact hjoin.symm.trans hq
  · change s.share.refreshPromise = some q at hq
    change 0 < s.share.refreshAwaiters ∧ q < s.share.sequences.length
    rw [hpromise, Option.some_inj] at hq
    exact ⟨by omega, hq ▸ hlength⟩
  · rw [hprogress q hq]
    exact hpromise

/-- A call that resumes after the refresh: the last one clears the promise. -/
theorem Shares.leave {result : RefreshResult} (h : s.Shares) (hc : s.calls[i]? = some c)
    (hawaited : c.awaited = some q) (hresult : s.result q = some result)
    (hnone : c'.awaited = none) : ((s.release q).putCall i c').Shares := by
  have hpromise := h.shared c (List.mem_of_getElem? hc) q hawaited
  have hcount := @countP_set i c c' s.calls hc fun c => c.awaited.isSome
  simp only [hawaited, hnone, Option.isSome_none, Option.isSome_some, if_true, Bool.false_eq_true,
    if_false, add_zero, ← h.awaiters] at hcount
  have hkept : ∀ q', (if s.refreshAwaiters - 1 = 0 ∧ s.refreshPromise = some q then none
      else s.refreshPromise) = some q' ↔ s.refreshAwaiters - 1 ≠ 0 ∧ q = q' := by
    intro q'
    simp only [hpromise, and_true, ne_eq]
    split_ifs with hzero <;> simp [hzero]
  refine ⟨?_, fun c₀ hc₀ q' hq' => ?_, fun q' hq' => ?_, fun q' hq' => ?_⟩
  · change s.refreshAwaiters - 1 = (s.calls.set i c').countP _
    omega
  · -- somebody waits still, so the promise is there
    change (if _ then none else s.refreshPromise) = some q'
    have hpos : 0 < (s.calls.set i c').countP fun c => c.awaited.isSome :=
      List.countP_pos_iff.mpr ⟨c₀, hc₀, by rw [hq']; rfl⟩
    rcases List.mem_or_eq_of_mem_set hc₀ with hc₀ | rfl
    · have hsame := h.shared c₀ hc₀ q' hq'
      exact (hkept q').mpr ⟨by omega, Option.some_inj.mp (hpromise.symm.trans hsame)⟩
    · rw [hnone] at hq'
      exact absurd hq' (by simp)
  · obtain ⟨hpos, rfl⟩ := (hkept q').mp hq'
    exact ⟨Nat.pos_of_ne_zero hpos, (h.held q hpromise).2⟩
  · -- the sequence is settled, and there is no other one
    obtain ⟨r, hr, hopen⟩ := hq'
    have hsame := Option.some_inj.mp ((h.inProgress q' ⟨r, hr, hopen⟩).symm.trans hpromise)
    subst hsame
    unfold Page.result at hresult
    split at hresult
    · rename_i hsettled
      rw [show s.sequences[q']? = some r from hr, Option.some_inj] at hsettled
      exact absurd (congrArg RefreshSequence.state hsettled) (hopen _)
    · exact absurd hresult (by simp)

/-- A call that does not wait in place of another one. -/
theorem Shares.putCall (h : s.Shares) (hc : s.calls[i]? = some c) (hnone : c.awaited = none)
    (hnone' : c'.awaited = none) : (s.putCall i c').Shares := by
  have hcount := @countP_set i c c' s.calls hc fun c => c.awaited.isSome
  simp only [hnone, hnone', Option.isSome_none, Bool.false_eq_true, if_false, add_zero] at hcount
  refine ⟨h.awaiters.trans hcount.symm, fun c₀ hc₀ q hq => ?_, h.held, h.inProgress⟩
  rcases List.mem_or_eq_of_mem_set hc₀ with hc₀ | rfl
  · exact h.shared c₀ hc₀ q hq
  · rw [hnone'] at hq
    exact absurd hq (by simp)

/-- A later state of a sequence in progress. -/
theorem Shares.putSequence {r r' : RefreshSequence} (h : s.Shares) (hr : s.sequences[q]? = some r)
    (hopen : r.state.IsOpen) : (s.putSequence q r').Shares := by
  refine ⟨h.awaiters, h.shared, fun q' hq' => ?_, fun q' ⟨r₀, hr₀, hopen₀⟩ => ?_⟩
  · change _ ∧ q' < (s.sequences.set q r').length
    rw [List.length_set]
    exact h.held q' hq'
  · change (s.sequences.set q r')[q']? = some r₀ at hr₀
    rw [List.getElem?_set] at hr₀
    split_ifs at hr₀ with hq
    · subst hq
      exact h.inProgress q ⟨r, hr, hopen⟩
    · exact h.inProgress q' ⟨r₀, hr₀, hopen₀⟩

theorem Shares.change (h : s.Shares) (hchange : s.Change m s') : s'.Shares := by
  cases hchange with
  | same => exact h
  | login => exact ⟨h.awaiters, h.shared, h.held, h.inProgress⟩
  | logout => exact ⟨h.awaiters, h.shared, h.held, h.inProgress⟩
  | answer => exact ⟨h.awaiters, h.shared, h.held, h.inProgress⟩
  | finish => exact ⟨h.awaiters, h.shared, h.held, h.inProgress⟩
  | @addCall m c hquiet =>
    refine ⟨?_, fun c₀ hc₀ q hq => ?_, h.held, h.inProgress⟩
    · change s.refreshAwaiters = (s.calls ++ [c]).countP _
      rw [List.countP_append, h.awaiters]
      simp [hquiet.1]
    · rcases List.mem_append.mp hc₀ with hc₀ | hc₀
      · exact h.shared c₀ hc₀ q hq
      · rw [List.mem_singleton.mp hc₀, hquiet.1] at hq
        exact absurd hq (by simp)
  | joinNew m hjoin => exact h.joinNew hjoin
  | putCall m hc hnone hquiet => exact h.putCall hc hnone hquiet.1
  | join m hc hnone hjoin => exact h.join hc hnone hjoin
  | leave m hc hawaited hresult hquiet => exact h.leave hc hawaited hresult hquiet.1
  | @probe i q path hc hresult =>
    have hleave := @Shares.leave s i q _ ⟨path, .probing s.sharedProbe q⟩ _ h hc rfl hresult rfl
    rw [shareProbe_eq]
    exact ⟨hleave.awaiters, hleave.shared, hleave.held, hleave.inProgress⟩
  | sequence m hr hopen => exact h.putSequence hr hopen
  | endSequence m hr hopen => exact h.putSequence hr hopen
  | @install m q r state hr hopen =>
    have hput := @Shares.putSequence s q r ⟨state, r.endedAt⟩ h hr hopen
    exact ⟨hput.awaiters, hput.shared, hput.held, hput.inProgress⟩
  | @clear i m q path hc =>
    have hput := @Shares.putCall s i _ ⟨path, .finished⟩ h hc rfl rfl
    rw [clear_eq]
    exact ⟨hput.awaiters, hput.shared, hput.held, hput.inProgress⟩

end Shared

/-! ### The tokens -/

/-- The token in memory was installed and not cleared, and no token was cleared twice. -/
structure Counts (s : Page) : Prop where
  token : ∀ n, s.accessToken = some n → n < s.installed ∧ n ∉ s.cleared.map Prod.fst
  cleared : ∀ p ∈ s.cleared, p.1 < s.installed
  byLogin : ∀ n ∈ s.byLogin, n < s.installed
  nodup : (s.cleared.map Prod.fst).Nodup

section Tokens

variable {s s' : Page} {m : Move}

theorem counts_congr (h : s.Counts) (htoken : s'.accessToken = s.accessToken)
    (hinstalled : s'.installed = s.installed) (hcleared : s'.cleared = s.cleared)
    (hbyLogin : s'.byLogin = s.byLogin) : s'.Counts := by
  refine ⟨?_, ?_, ?_, ?_⟩
  · rw [htoken, hinstalled, hcleared]
    exact h.token
  · rw [hinstalled, hcleared]
    exact h.cleared
  · rw [hinstalled, hbyLogin]
    exact h.byLogin
  · rw [hcleared]
    exact h.nodup

theorem Counts.install (h : s.Counts) : s.install.Counts := by
  refine ⟨fun n hn => ?_, fun p hp => Nat.lt_succ_of_lt (h.cleared p hp),
    fun n hn => Nat.lt_succ_of_lt (h.byLogin n hn), h.nodup⟩
  obtain rfl := Option.some_inj.mp hn
  refine ⟨Nat.lt_succ_self _, fun hmem => ?_⟩
  obtain ⟨p, hp, hfst⟩ := List.mem_map.mp hmem
  exact absurd (h.cleared p hp) (by rw [hfst]; exact lt_irrefl _)

theorem Counts.clear (h : s.Counts) (q : ℕ) : (s.clear q).Counts := by
  unfold Page.clear
  split
  · rename_i n hn
    obtain ⟨hlt, hnew⟩ := h.token n hn
    refine ⟨fun _ hnone => absurd hnone (by simp), fun p hp => ?_, h.byLogin, ?_⟩
    · rcases List.mem_cons.mp hp with rfl | hp
      · exact hlt
      · exact h.cleared p hp
    · exact List.nodup_cons.mpr ⟨hnew, h.nodup⟩
  · exact h

theorem Counts.change (h : s.Counts) (hchange : s.Change m s') : s'.Counts := by
  cases hchange with
  | same => exact h
  | login =>
    have hinstall := h.install
    refine ⟨hinstall.token, hinstall.cleared, fun n hn => ?_, hinstall.nodup⟩
    rcases List.mem_cons.mp hn with rfl | hn
    · exact Nat.lt_succ_self _
    · exact hinstall.byLogin n hn
  | logout => exact ⟨fun _ hn => absurd hn (by simp [setAccessToken]), h.cleared, h.byLogin,
      h.nodup⟩
  | joinNew m hjoin | join m hc hnone hjoin =>
    rw [share_eq]
    exact counts_congr h rfl rfl rfl rfl
  | probe hc hresult =>
    rw [shareProbe_eq]
    exact counts_congr h rfl rfl rfl rfl
  | install m hr hopen => exact counts_congr h.install rfl rfl rfl rfl
  | @clear i m q path hc => exact counts_congr (h.clear q) rfl rfl rfl rfl
  | _ => exact counts_congr h rfl rfl rfl rfl

end Tokens

/-! ### The calls that wait for a probe -/

/-- Who waits for a probe does so on account of a sequence that ended terminally. -/
structure Tails (s : Page) : Prop where
  ended : ∀ q k, s.endedAt q = some k → k ≤ s.installed
  terminal : ∀ (q : ℕ) (r : RefreshSequence), s.sequences[q]? = some r → r.state.IsTerminal →
    r.endedAt.isSome = true
  probing : ∀ c ∈ s.calls, ∀ m q, c.state = .probing m q →
    (s.endedAt q).isSome = true ∧ m < s.probes.length
  me : ∀ m, s.mePromise = some m → m < s.probes.length

section Tail

variable {s s' : Page} {m : Move} {q : ℕ}

theorem getElem?_putSequence {r r' : RefreshSequence} (hr : s.sequences[q]? = some r) (q' : ℕ) :
    (s.putSequence q r').sequences[q']? = if q = q' then some r' else s.sequences[q']? := by
  change (s.sequences.set q r')[q']? = _
  rw [List.getElem?_set, if_pos (List.getElem?_eq_some_iff.mp hr).1]

theorem endedAt_putSequence {r r' : RefreshSequence} (hr : s.sequences[q]? = some r) (q' : ℕ) :
    (s.putSequence q r').endedAt q' = if q = q' then r'.endedAt else s.endedAt q' := by
  rw [endedAt, getElem?_putSequence hr]
  split_ifs <;> rfl

theorem endedAt_putSequence_same {r : RefreshSequence} (hr : s.sequences[q]? = some r)
    (state : SequenceState) (q' : ℕ) :
    (s.putSequence q ⟨state, r.endedAt⟩).endedAt q' = s.endedAt q' := by
  rw [endedAt_putSequence hr]
  split_ifs with hq
  · rw [← hq, endedAt, hr]
    rfl
  · rfl

/-- A new sequence has not ended. -/
theorem getElem?_share {r : RefreshSequence} (hr : s.share.sequences[q]? = some r) :
    s.sequences[q]? = some r ∨ r = {} ∧ s.sequences[q]? = none := by
  unfold share at hr
  split at hr
  · exact .inl hr
  · rw [List.getElem?_append] at hr
    split_ifs at hr with hlt
    · exact .inl hr
    · exact .inr ⟨(List.mem_singleton.mp (List.mem_of_getElem? hr)),
        List.getElem?_eq_none_iff.mpr (not_lt.mp hlt)⟩

theorem endedAt_share (q : ℕ) : s.share.endedAt q = s.endedAt q := by
  unfold share
  split
  · rfl
  · unfold endedAt
    rw [List.getElem?_append]
    split_ifs with hlt
    · rfl
    · rw [List.getElem?_eq_none_iff.mpr (not_lt.mp hlt)]
      cases q - s.sequences.length <;> rfl

/-- When sequences end: a step leaves what has ended, or one ends now. -/
theorem endedAt_change (h : s.Change m s') (q : ℕ) : s'.endedAt q = s.endedAt q ∨
    s'.endedAt q = some s.installed ∧ s'.installed = s.installed ∧
      s'.accessToken = s.accessToken ∧ s'.cleared = s.cleared := by
  cases h with
  | joinNew | join => exact .inl (endedAt_share q)
  | probe =>
    rw [shareProbe_eq]
    exact .inl rfl
  | sequence m hr => exact .inl (endedAt_putSequence_same hr _ q)
  | install m hr => exact .inl (endedAt_putSequence_same hr _ q)
  | @endSequence m q' r state hr hopen =>
    rw [endedAt_putSequence hr]
    split_ifs
    · exact .inr ⟨rfl, rfl, rfl, rfl⟩
    · exact .inl rfl
  | clear =>
    rw [clear_eq]
    exact .inl rfl
  | _ => exact .inl rfl

theorem installed_change (h : s.Change m s') : s.installed ≤ s'.installed := by
  cases h with
  | login | install => exact Nat.le_succ _
  | joinNew | join =>
    rw [share_eq]
    exact le_rfl
  | probe =>
    rw [shareProbe_eq]
    exact le_rfl
  | clear =>
    rw [clear_eq]
    exact le_rfl
  | _ => exact le_rfl

/-- A call that waits for a probe did so before, or it joins the probe now. -/
theorem probing_change (h : s.Change m s') {c : ApiCall} (hc : c ∈ s'.calls) {m' : ℕ}
    (hprobing : c.state = .probing m' q) : c ∈ s.calls ∨
      ∃ i path, m = .resume i ∧ s.calls[i]? = some ⟨path, .refreshing q⟩ ∧
        s.result q = some .terminal ∧ m' = s.sharedProbe ∧
        s' = (s.release q).shareProbe.putCall i ⟨path, .probing s.sharedProbe q⟩ := by
  have hset : ∀ {l : List ApiCall} {i : ℕ} {c' : ApiCall}, c ∈ l.set i c' →
      (∀ m q, c'.state ≠ .probing m q) → c ∈ l := fun hmem hnot =>
    (List.mem_or_eq_of_mem_set hmem).resolve_right fun heq => hnot m' q (heq ▸ hprobing)
  cases h with
  | addCall m hquiet =>
    rcases List.mem_append.mp hc with hc | hc
    · exact .inl hc
    · exact absurd (List.mem_singleton.mp hc ▸ hprobing) (hquiet.2 m' q)
  | joinNew m hjoin hnot =>
    rw [share_eq] at hc
    rcases List.mem_append.mp hc with hc | hc
    · exact .inl hc
    · exact absurd (List.mem_singleton.mp hc ▸ hprobing) (hnot m' q)
  | putCall m hc₀ hnone hquiet => exact .inl (hset hc hquiet.2)
  | join m hc₀ hnone hjoin hnot =>
    rw [share_eq] at hc
    exact .inl (hset hc hnot)
  | leave m hc₀ hawaited hresult hquiet => exact .inl (hset hc hquiet.2)
  | @probe i q' path hc₀ hresult =>
    rw [shareProbe_eq] at hc
    rcases List.mem_or_eq_of_mem_set hc with hc | rfl
    · exact .inl hc
    · obtain ⟨rfl, rfl⟩ := CallState.probing.inj hprobing
      exact .inr ⟨i, path, rfl, hc₀, hresult, rfl, rfl⟩
  | @clear i m₀ q' path hc₀ =>
    rw [clear_eq] at hc
    exact .inl (hset hc (by simp))
  | _ => exact .inl hc

theorem isSome_endedAt_change (h : s.Change m s') (hq : (s.endedAt q).isSome = true) :
    (s'.endedAt q).isSome = true := by
  rcases endedAt_change h q with hsame | ⟨hnow, -⟩
  · rwa [hsame]
  · rw [hnow]
    rfl

/-- A step adds probes and changes none that has answered but for its `finally`. -/
theorem probes_change (h : s.Change m s') : s.probes.length ≤ s'.probes.length := by
  cases h with
  | joinNew | join =>
    rw [share_eq]
    exact le_rfl
  | probe =>
    unfold shareProbe
    split
    · exact le_rfl
    · change s.probes.length ≤ (s.probes ++ _).length
      rw [List.length_append]
      exact Nat.le_add_right _ _
  | answer | finish => exact (List.length_set).ge
  | clear =>
    rw [clear_eq]
    exact le_rfl
  | _ => exact le_rfl

theorem Tails.endedAt_of_result (h : s.Tails) (hresult : s.result q = some .terminal) :
    (s.endedAt q).isSome = true := by
  unfold result at hresult
  split at hresult
  · rename_i r endedAt hr
    have hended := h.terminal q _ hr (.inl (by rw [Option.some_inj.mp hresult]))
    rw [Page.endedAt, hr]
    exact hended
  · exact absurd hresult (by simp)

/-- The probe that a call joins is there afterwards. -/
theorem Tails.sharedProbe_lt (h : s.Tails) (q : ℕ) :
    s.sharedProbe < (s.release q).shareProbe.probes.length := by
  unfold shareProbe sharedProbe
  cases hme : s.mePromise with
  | some m =>
    rw [show (s.release q).mePromise = some m from hme]
    exact h.me m hme
  | none =>
    rw [show (s.release q).mePromise = none from hme]
    change s.probes.length < (s.probes ++ _).length
    rw [List.length_append]
    exact Nat.lt_succ_self _

theorem Tails.change (h : s.Tails) (hchange : s.Change m s') : s'.Tails where
  ended q k hk := by
    rcases endedAt_change hchange q with hsame | ⟨hnow, hinstalled, -⟩
    · exact (h.ended q k (hsame ▸ hk)).trans (installed_change hchange)
    · rw [hnow, Option.some_inj] at hk
      exact (hk.symm.trans hinstalled.symm).le
  terminal q r hr hterminal := by
    cases hchange with
    | joinNew | join =>
      rcases getElem?_share hr with hr | ⟨rfl, -⟩
      · exact h.terminal q r hr hterminal
      · simp [SequenceState.IsTerminal] at hterminal
    | probe =>
      rw [shareProbe_eq] at hr
      exact h.terminal q r hr hterminal
    | @sequence m q' r' state hr' hopen hback =>
      rw [getElem?_putSequence hr'] at hr
      split_ifs at hr
      · obtain rfl := Option.some_inj.mp hr
        exact h.terminal q' r' hr' (hback hterminal)
      · exact h.terminal q r hr hterminal
    | endSequence m hr' hopen =>
      rw [getElem?_putSequence hr'] at hr
      split_ifs at hr
      · obtain rfl := Option.some_inj.mp hr
        rfl
      · exact h.terminal q r hr hterminal
    | @install m q' r' state hr' hopen hnot =>
      have hput := @getElem?_putSequence s q' r' ⟨state, r'.endedAt⟩ hr' q
      rw [show (s.putSequence q' ⟨state, r'.endedAt⟩).sequences[q]? = some r from hr] at hput
      split_ifs at hput
      · obtain rfl := Option.some_inj.mp hput
        exact absurd hterminal hnot
      · exact h.terminal q r hput.symm hterminal
    | clear =>
      rw [clear_eq] at hr
      exact h.terminal q r hr hterminal
    | _ => exact h.terminal q r hr hterminal
  probing c hc m' q hprobing := by
    rcases probing_change hchange hc hprobing with hold | ⟨i, path, -, -, hresult, rfl, hnew⟩
    · obtain ⟨hended, hlt⟩ := h.probing c hold m' q hprobing
      exact ⟨isSome_endedAt_change hchange hended, hlt.trans_le (probes_change hchange)⟩
    · refine ⟨isSome_endedAt_change hchange (h.endedAt_of_result hresult), ?_⟩
      rw [hnew]
      exact h.sharedProbe_lt q
  me m' hm' := by
    cases hchange with
    | joinNew | join =>
      rw [share_eq] at hm' ⊢
      exact h.me m' hm'
    | @probe i q path =>
      rw [shareProbe_eq] at hm'
      have hsame : s.sharedProbe = m' := Option.some_inj.mp hm'
      exact lt_of_eq_of_lt hsame.symm (h.sharedProbe_lt q)
    | answer => exact (h.me m' hm').trans_eq (List.length_set).symm
    | finish => exact absurd hm' (by simp)
    | clear =>
      rw [clear_eq] at hm' ⊢
      exact h.me m' hm'
    | _ => exact h.me m' hm'

end Tail

/-! ### The findings -/

/-- No call waits with the finding that the session is dead while the token of a later login is in
memory. -/
def Verdict (s : Page) : Prop :=
  ∀ c ∈ s.calls, ∀ m q, c.state = .probing m q → s.FoundDead m → ¬s.LaterLogin q

section Findings

variable {s s' : Page} {m : Move} {m' q n : ℕ}

theorem FoundDead.lt (h : s.FoundDead m') : m' < s.probes.length := by
  rcases h with h | h <;> exact (List.getElem?_eq_some_iff.mp h).1

theorem foundDead_shareProbe (h : s.shareProbe.FoundDead m') : s.FoundDead m' ∨
    s.probes.length ≤ m' ∧ s.accessToken = none := by
  unfold shareProbe at h
  split at h
  · exact .inl h
  · rw [FoundDead, List.getElem?_append] at h
    split_ifs at h with hlt htoken
    · exact .inl h
    · exact .inr ⟨not_lt.mp hlt, htoken⟩
    · simp [List.getElem?_singleton] at h

/-- A probe has found the session dead before, it does so now, or it is new and there is no
token. -/
theorem foundDead_change (h : s.Change m s') (hdead : s'.FoundDead m') : s.FoundDead m' ∨
    (∃ status, m = .probeResponse m' status ∧ s.probes[m']? = some .pending ∧ status ≠ some 200) ∨
    s.probes.length ≤ m' ∧ s.accessToken = none := by
  cases h with
  | joinNew | join =>
    rw [share_eq] at hdead
    exact .inl hdead
  | probe =>
    rcases foundDead_shareProbe hdead with hold | hnew
    · exact .inl hold
    · exact .inr (.inr hnew)
  | @answer m₀ status hpending =>
    rw [FoundDead, List.getElem?_set] at hdead
    split_ifs at hdead with hm
    · subst hm
      exact .inr (.inl ⟨status, rfl, hpending, fun hok => by simp [hok] at hdead⟩)
    · simp at hdead
    · exact .inl hdead
  | @finish m₀ alive hanswered =>
    rw [FoundDead, List.getElem?_set] at hdead
    split_ifs at hdead with hm
    · subst hm
      cases alive with
      | true => simp at hdead
      | false => exact .inl (.inl hanswered)
    · simp at hdead
    · exact .inl hdead
  | clear =>
    rw [clear_eq] at hdead
    exact .inl hdead
  | _ => exact .inl hdead

theorem byLogin_change (h : s.Change m s') (hn : n ∈ s'.byLogin) :
    n ∈ s.byLogin ∨ n = s.installed ∧ m = .setAccessToken true := by
  cases h with
  | login =>
    rcases List.mem_cons.mp hn with rfl | hn
    · exact .inr ⟨rfl, rfl⟩
    · exact .inl hn
  | joinNew | join =>
    rw [share_eq] at hn
    exact .inl hn
  | probe =>
    rw [shareProbe_eq] at hn
    exact .inl hn
  | clear =>
    rw [clear_eq] at hn
    exact .inl hn
  | _ => exact .inl hn

/-- The token in memory was there before, or it is new. -/
theorem accessToken_change (h : s.Change m s') (hn : s'.accessToken = some n) :
    s.accessToken = some n ∨ n = s.installed := by
  cases h with
  | login | install => exact .inr (Option.some_inj.mp hn).symm
  | logout => exact absurd hn (by simp [setAccessToken])
  | joinNew | join =>
    rw [share_eq] at hn
    exact .inl hn
  | probe =>
    rw [shareProbe_eq] at hn
    exact .inl hn
  | clear =>
    rw [clear_eq] at hn
    exact absurd hn (by simp [putCall])
  | _ => exact .inl hn

/-- A sequence that ends now ends after every token there is. -/
theorem endedBefore_change (h : s.Change m s') (hlt : n < s.installed)
    (hended : s'.EndedBefore q n) : s.EndedBefore q n := by
  obtain ⟨k, hk, hle⟩ := hended
  rcases endedAt_change h q with hsame | ⟨hnow, -⟩
  · exact ⟨k, hsame ▸ hk, hle⟩
  · rw [hnow] at hk
    have hsame : s.installed = k := Option.some_inj.mp hk
    omega

theorem Counts.laterLogin_change (h : s.Counts) (hchange : s.Change m s')
    (hlater : s'.LaterLogin q) : s.LaterLogin q ∨ m = .setAccessToken true := by
  obtain ⟨n, htoken, hlogin, hended⟩ := hlater
  rcases byLogin_change hchange hlogin with hlogin | ⟨-, hm⟩
  · have hlt := h.byLogin n hlogin
    rcases accessToken_change hchange htoken with htoken | rfl
    · exact .inl ⟨n, htoken, hlogin, endedBefore_change hchange hlt hended⟩
    · exact absurd hlt (lt_irrefl _)
  · exact .inr hm

/-- A call that joins a probe now joins one that has not found the session dead. -/
theorem Verdict.probe {i : ℕ} {path : Option String} (htimely : (Move.resume i).Timely s)
    (hc : s.calls[i]? = some ⟨path, .refreshing q⟩) (hresult : s.result q = some .terminal)
    (hdead : s.FoundDead s.sharedProbe ∨ s.probes.length ≤ s.sharedProbe ∧ s.accessToken = none) :
    ¬s.LaterLogin q := by
  rintro ⟨n, htoken, hlogin, hended⟩
  rcases hdead with hdead | ⟨-, hnone⟩
  · cases hme : s.mePromise with
    | some m =>
      have hsame : s.sharedProbe = m := by rw [sharedProbe, hme]; rfl
      exact htimely _ hc q rfl hresult m hme (hsame ▸ hdead) ⟨n, htoken, hlogin, hended⟩
    | none =>
      have hlt := hdead.lt
      rw [sharedProbe, hme] at hlt
      exact lt_irrefl _ hlt
  · rw [htoken] at hnone
    exact absurd hnone (by simp)

theorem Verdict.change (h : s.Verdict) (hcounts : s.Counts) (htails : s.Tails)
    (hchange : s.Change m s') (htimely : m.Timely s) : s'.Verdict := by
  intro c hc m' q hprobing hdead hlater
  rcases probing_change hchange hc hprobing with hold | ⟨i, path, rfl, hi, hresult, rfl, -⟩
  · rcases hcounts.laterLogin_change hchange hlater with hlater | rfl
    · -- the finding is new
      rcases foundDead_change hchange hdead with hdead | ⟨status, rfl, hpending, hstatus⟩ | hnew
      · exact h c hold m' q hprobing hdead hlater
      · exact htimely hpending hstatus c hold q hprobing hlater
      · exact absurd (htails.probing c hold m' q hprobing).2 (not_lt.mpr hnew.1)
    · -- the login is new
      rcases foundDead_change hchange hdead with hdead | ⟨_, hm, -⟩ | hnew
      · exact htimely c hold m' q hprobing hdead
      · exact absurd hm (by simp)
      · exact absurd (htails.probing c hold m' q hprobing).2 (not_lt.mpr hnew.1)
  · rcases hcounts.laterLogin_change hchange hlater with hlater | hm
    · rcases foundDead_change hchange hdead with hdead | ⟨_, hm, -⟩ | hnew
      · exact Verdict.probe htimely hi hresult (.inl hdead) hlater
      · exact absurd hm (by simp)
      · exact Verdict.probe htimely hi hresult (.inr hnew) hlater
    · exact absurd hm (by simp)

end Findings

/-! ### Runs -/

/-- What every step keeps. -/
structure Tidy (s : Page) : Prop where
  shares : s.Shares
  counts : s.Counts
  tails : s.Tails

theorem Tidy.start : Tidy {} where
  shares := ⟨rfl, by simp, by simp, fun q ⟨r, hr, _⟩ => by simp at hr⟩
  counts := ⟨by simp, by simp, by simp, List.nodup_nil⟩
  tails := ⟨fun q k hk => by simp [endedAt] at hk, by simp, by simp, by simp⟩

section Runs

variable {s s' : Page} {m : Move} {ok : Page → Move → Prop}

theorem Tidy.change (h : s.Tidy) (hchange : s.Change m s') : s'.Tidy :=
  ⟨h.shares.change hchange, h.counts.change hchange, h.tails.change hchange⟩

theorem Reached.tidy (h : Reached ok s) : s.Tidy := by
  induction h with
  | start => exact Tidy.start
  | step _ _ ih => exact ih.change (change_step _ _)

theorem Shares.oneSequence (h : s.Shares) {q q' : ℕ} (hq : s.InProgress q)
    (hq' : s.InProgress q') : q = q' :=
  Option.some_inj.mp ((h.inProgress q hq).symm.trans (h.inProgress q' hq'))

/-- Somebody is counted, and whoever is waits for the promise there is. -/
theorem Shares.promiseAwaited (h : s.Shares) {q : ℕ} (hq : s.refreshPromise = some q) :
    ∃ c ∈ s.calls, c.awaited = some q := by
  have hpos := (h.held q hq).1
  rw [h.awaiters, List.countP_pos_iff] at hpos
  obtain ⟨c, hc, hsome⟩ := hpos
  obtain ⟨q', hq'⟩ := Option.isSome_iff_exists.mp hsome
  refine ⟨c, hc, ?_⟩
  rw [hq', ← h.shared c hc q' hq', hq]

/-- What is cleared was cleared before, or it is the token in memory, on account of a finding. -/
theorem cleared_change (h : s.Change m s') {n q : ℕ} (hmem : (n, q) ∈ s'.cleared) :
    (n, q) ∈ s.cleared ∨ s.accessToken = some n ∧ s'.byLogin = s.byLogin ∧
      s'.endedAt q = s.endedAt q ∧ ∃ c ∈ s.calls, ∃ m, c.state = .probing m q ∧ s.FoundDead m := by
  cases h with
  | joinNew | join =>
    rw [share_eq] at hmem
    exact .inl hmem
  | probe =>
    rw [shareProbe_eq] at hmem
    exact .inl hmem
  | @clear i m q' path hc hdead =>
    change (n, q) ∈ (s.clear q').cleared at hmem
    unfold Page.clear at hmem ⊢
    split at hmem
    · rename_i n' hn'
      rcases List.mem_cons.mp hmem with hnew | hold
      · obtain ⟨rfl, rfl⟩ := Prod.mk.inj hnew
        exact .inr ⟨hn', rfl, rfl, _, List.mem_of_getElem? hc, m, rfl, .inr hdead⟩
      · exact .inl hold
    · exact .inl hmem
  | _ => exact .inl hmem

/-- No token of a login has been cleared on account of a sequence that ended before. -/
def LoginKept (s : Page) : Prop :=
  ∀ n q, (n, q) ∈ s.cleared → n ∈ s.byLogin → ¬s.EndedBefore q n

theorem LoginKept.change (h : s.LoginKept) (hverdict : s.Verdict) (htidy : s.Tidy)
    (hchange : s.Change m s') : s'.LoginKept := by
  intro n q hmem hlogin hended
  rcases cleared_change hchange hmem with hold | ⟨htoken, hsame, hat, c, hc, m', hprobing, hdead⟩
  · have hlt : n < s.installed := htidy.counts.cleared _ hold
    rcases byLogin_change hchange hlogin with hlogin | ⟨rfl, -⟩
    · exact h n q hold hlogin (endedBefore_change hchange hlt hended)
    · exact lt_irrefl _ hlt
  · rw [hsame] at hlogin
    rw [EndedBefore, hat] at hended
    exact hverdict c hc m' q hprobing hdead ⟨n, htoken, hlogin, hended⟩

theorem Reached.verdict (h : Reached Move.Timely s) : s.Verdict ∧ s.LoginKept := by
  induction h with
  | start => exact ⟨by simp [Verdict], by simp [LoginKept]⟩
  | @step s m hs htimely ih =>
    have hchange := change_step s m
    exact ⟨ih.1.change hs.tidy.counts hs.tidy.tails hchange htimely,
      ih.2.change ih.1 hs.tidy hchange⟩

/-- On every page there is one refresh at a time, the promise is there for whoever waits only, and
no token is cleared with the event twice. On a page whose moves were timely no login is lost
either. -/
theorem singleflight_of_timely (h : Reached Move.Timely s) : s.Singleflight where
  oneSequence _ _ hq hq' := h.tidy.shares.oneSequence hq hq'
  promiseAwaited _ hq := h.tidy.shares.promiseAwaited hq
  onceEach := h.tidy.counts.nodup
  loginKept := h.verdict.2

/-! ### A move that is not timely -/

/-- A timely move from one page to the next. -/
def Next (s s' : Page) : Prop := ∃ m : Move, m.Timely s ∧ s' = s.step m

theorem Reached.next (h : Reached Move.Timely s) (hnext : s.Next s') : Reached Move.Timely s' := by
  obtain ⟨m, htimely, rfl⟩ := hnext
  exact h.step htimely

theorem step_probeFinally {m' : ℕ} {alive : Bool} (h : s.probes[m']? = some (.answered alive)) :
    s.step (.probeFinally m') =
      { s with probes := s.probes.set m' (.finished alive), mePromise := none } := by
  rw [step, h]

/-- The call clears the token of the login. -/
theorem not_loginKept_of_finished {i m' q : ℕ} {path : Option String}
    (hc : s.calls[i]? = some ⟨path, .probing m' q⟩) (hdead : s.probes[m']? = some (.finished false))
    (hlater : s.LaterLogin q) : ¬(s.step (.resumeProbed i)).LoginKept := by
  obtain ⟨n, htoken, hlogin, hended⟩ := hlater
  intro hkept
  have hstep : s.step (.resumeProbed i) = (s.clear q).putCall i ⟨path, .finished⟩ := by
    rw [step, hc]
    dsimp only
    rw [hdead]
  rw [hstep] at hkept
  have hclear : s.clear q = { s with accessToken := none, cleared := (n, q) :: s.cleared } := by
    rw [Page.clear, htoken]
  rw [hclear] at hkept
  exact hkept n q (List.mem_cons_self ..) hlogin hended

/-- A call that waits with the finding that the session is dead loses the login. -/
theorem loses_login {c : ApiCall} (hc : c ∈ s.calls) {m' q : ℕ} (hprobing : c.state = .probing m' q)
    (hdead : s.FoundDead m') (hlater : s.LaterLogin q) :
    ∃ s', Relation.ReflTransGen Next s s' ∧ ¬s'.Singleflight := by
  obtain ⟨i, hi⟩ := List.mem_iff_getElem?.mp hc
  obtain ⟨path, state⟩ := c
  obtain rfl : state = .probing m' q := hprobing
  rcases hdead with hanswered | hfinished
  · -- the promise of the probe is settled after its `finally`
    have hfinally : s.Next (s.step (.probeFinally m')) := ⟨.probeFinally m', trivial, rfl⟩
    have hresume : (s.step (.probeFinally m')).Next
        ((s.step (.probeFinally m')).step (.resumeProbed i)) := ⟨.resumeProbed i, trivial, rfl⟩
    refine ⟨_, (Relation.ReflTransGen.single hfinally).tail hresume, fun hflight => ?_⟩
    have hkept := hflight.loginKept
    rw [step_probeFinally hanswered] at hkept
    refine @not_loginKept_of_finished { s with probes := s.probes.set m' _, mePromise := none }
      i m' q path hi ?_ hlater hkept
    exact List.getElem?_set_self (List.getElem?_eq_some_iff.mp hanswered).1
  · refine ⟨_, .single ⟨.resumeProbed i, trivial, rfl⟩, fun hflight => ?_⟩
    exact not_loginKept_of_finished hi hfinished hlater hflight.loginKept

theorem loses_login_of_not_timely (h : s.Tails) (hm : ¬m.Timely s) :
    ∃ s', Relation.ReflTransGen Next (s.step m) s' ∧ ¬s'.Singleflight := by
  cases m with
  | setAccessToken installs =>
    cases installs with
    | false => exact absurd trivial hm
    | true =>
      simp only [Move.Timely, not_forall, not_not] at hm
      obtain ⟨c, hc, m', q, hprobing, hdead⟩ := hm
      obtain ⟨k, hk⟩ := Option.isSome_iff_exists.mp (h.probing c hc m' q hprobing).1
      have hlater : (s.setAccessToken true).LaterLogin q :=
        ⟨s.installed, rfl, List.mem_cons_self .., k, hk, h.ended q k hk⟩
      exact loses_login (s := s.setAccessToken true) hc hprobing hdead hlater
  | probeResponse m' status =>
    simp only [Move.Timely, not_forall, not_not] at hm
    obtain ⟨hpending, hstatus, c, hc, q, hprobing, hlater⟩ := hm
    have hstep : s.step (.probeResponse m' status) =
        { s with probes := s.probes.set m' (.answered false) } := by
      rw [step, hpending]
      simp [hstatus]
    rw [hstep]
    refine loses_login hc hprobing (.inl ?_) hlater
    exact List.getElem?_set_self (List.getElem?_eq_some_iff.mp hpending).1
  | resume i =>
    simp only [Move.Timely, not_forall, not_not] at hm
    obtain ⟨⟨path, state⟩, hc, q, hstate, hresult, m', hme, hdead, hlater⟩ := hm
    obtain rfl : state = .refreshing q := hstate
    have hc : s.calls[i]? = some ⟨path, .refreshing q⟩ := hc
    have hprobe : (s.release q).shareProbe = s.release q := by
      rw [shareProbe, show (s.release q).mePromise = some m' from hme]
    have hstep : s.step (.resume i) = (s.release q).putCall i ⟨path, .probing m' q⟩ := by
      rw [step, hc]
      dsimp only
      rw [hresult]
      change (s.release q).shareProbe.putCall i _ = _
      rw [hprobe, sharedProbe, hme]
      rfl
    rw [hstep]
    refine @loses_login _ ⟨path, .probing m' q⟩ ?_ m' q rfl hdead hlater
    exact List.mem_set (List.getElem?_eq_some_iff.mp hc).1 _
  | _ => exact absurd trivial hm

/-- On a page that timely moves have reached, a move is timely iff all goes well afterwards. -/
theorem timely_iff (h : Reached Move.Timely s) (m : Move) :
    m.Timely s ↔ ∀ s', Relation.ReflTransGen Next (s.step m) s' → s'.Singleflight := by
  constructor
  · intro htimely s' hrun
    have hs' : Reached Move.Timely s' := by
      induction hrun with
      | refl => exact h.step htimely
      | tail _ hnext ih => exact ih.next hnext
    exact singleflight_of_timely hs'
  · intro hall
    by_contra hm
    obtain ⟨s', hrun, hnot⟩ := loses_login_of_not_timely h.tidy.tails hm
    exact hnot (hall s' hrun)

end Runs

/-- A run whose moves satisfy `ok`. -/
def Runs (ok : Page → Move → Prop) (s : Page) : List Move → Prop
  | [] => True
  | m :: ms => ok s m ∧ Runs ok (s.step m) ms

theorem Reached.foldl {ok : Page → Move → Prop} {s : Page} {ms : List Move} (hs : Reached ok s)
    (h : Runs ok s ms) : Reached ok (ms.foldl Page.step s) := by
  induction ms generalizing s with
  | nil => exact hs
  | cons m ms ih => exact ih (hs.step h.1) h.2

end Page

/-! ### An expired session -/

/-- After a login, a call meets a 401 and the refresh another one. The call goes on to the probe. -/
def sampleExpired : List Move :=
  [.setAccessToken true, .apiFetch "/api/v1/accounts" false, .send 0, .respond 0 (some 401),
    .refreshResponse 0 (some 401), .resumeRefresh 0, .resume 0]

/-- The probe finds the session dead, and the call clears the token. -/
def sampleCleared : List Move :=
  sampleExpired ++ [.probeResponse 0 (some 401), .probeFinally 0, .resumeProbed 0]

/-- The same with a login before the probe is answered. -/
def sampleLost : List Move :=
  sampleExpired ++
    [.setAccessToken true, .probeResponse 0 (some 401), .probeFinally 0, .resumeProbed 0]

theorem runs_sampleCleared : Page.Runs Move.Timely {} sampleCleared := by
  have hjoin : (sampleExpired.take 6).foldl Page.step {} =
      { accessToken := some 0, refreshPromise := some 0, refreshAwaiters := 1, installed := 1
        sequences := [⟨.settled .terminal, some 1⟩], byLogin := [0]
        calls := [⟨some "/api/v1/accounts", .refreshing 0⟩] } := by decide
  have hprobe : sampleExpired.foldl Page.step {} =
      { accessToken := some 0, mePromise := some 0, installed := 1
        sequences := [⟨.settled .terminal, some 1⟩], probes := [.pending], byLogin := [0]
        calls := [⟨some "/api/v1/accounts", .probing 0 0⟩] } := by decide
  refine ⟨by simp [Move.Timely], trivial, trivial, trivial, trivial, trivial, ?_, ?_, trivial,
    trivial, trivial⟩
  · change Move.Timely ((sampleExpired.take 6).foldl Page.step {}) (.resume 0)
    rw [hjoin]
    simp [Move.Timely]
  · change Move.Timely (sampleExpired.foldl Page.step {}) (.probeResponse 0 (some 401))
    rw [hprobe]
    simp [Move.Timely, Page.LaterLogin, Page.EndedBefore, Page.endedAt]

theorem sampleCleared_singleflight : (sampleCleared.foldl Page.step {}).cleared = [(0, 0)] ∧
    (sampleCleared.foldl Page.step {}).Singleflight :=
  ⟨by decide, Page.singleflight_of_timely (Page.Reached.start.foldl runs_sampleCleared)⟩

/-- The token of the second login is gone on account of the sequence that ended before it. -/
theorem sampleLost_not_kept : (sampleLost.foldl Page.step {}).cleared = [(1, 0)] ∧
    ¬(sampleLost.foldl Page.step {}).Singleflight := by
  refine ⟨by decide, fun h => ?_⟩
  have hended : (sampleLost.foldl Page.step {}).EndedBefore 0 1 := ⟨1, by decide, le_rfl⟩
  exact h.loginKept 1 0 (by decide) (by decide) hended

end Pfv
