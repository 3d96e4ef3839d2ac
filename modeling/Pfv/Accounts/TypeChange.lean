import Pfv.Services.AccountTypeChange

/-!
# Updates of the type of an account in any order

Requests on one account read, lock, write and commit in any order. The close day goes with the
credit-card type after every commit, since both are checked and written under the lock. The account
is the one that the committed requests give one after another, unless a request that names no type
finds under the lock another type than it read before: it then writes the old type again.

## Main definitions

* `CloseDayCoupled`: an account has a close day if and only if it is a credit card.
* `AccountUpdates.TargetCurrent`: the type that a request without a type has read is still there
  when it gets the lock.

## Main results

* `AccountUpdates.serial`: the close day goes with the type in every interleaving, and where every
  type that was read is still there under the lock, the account is the one that the committed
  requests give in the order of their commits.
* `AccountUpdates.not_serial_of_sampleStale`: an interleaving that no order of its two requests
  gives.
-/

namespace Pfv

/-- An account has a close day if and only if its type is the credit-card type. -/
def CloseDayCoupled (accountTypes : Table AccountType) (a : Account) : Prop :=
  a.closeDay ≠ none ↔ typeSlug accountTypes a.accountTypeId = some "credit_card"

variable {accountTypes : Table AccountType} {org target : ℕ} {row : Option AccountRow}
  {account : AccountRow} {body : AccountUpdate}

/-! ### What a request writes -/

theorem typeSlug_of_get? {typeId : ℕ} {t : AccountType}
    (h : (accountTypes.get? typeId).filter (·.orgId = org) = some t) :
    typeSlug accountTypes typeId = t.slug := by
  have ht : accountTypes.get? typeId = some t := (Option.filter_eq_some_iff.mp h).1
  simp only [typeSlug, ht, Option.bind_some]

/-- The close day that a request leaves, by the old and the new type. -/
theorem closeDay_of_cascade {sourceSlug targetSlug : Option String} {day : Option ℕ}
    {closeDay : Option (Option ℕ)}
    (h : validateCloseDayCascade sourceSlug targetSlug closeDay = .ok ())
    (hday : day ≠ none ↔ sourceSlug = some "credit_card") :
    (if targetSlug = some "credit_card" then closeDay.getD day else none) ≠ none ↔
      targetSlug = some "credit_card" := by
  unfold validateCloseDayCascade at h
  by_cases htarget : targetSlug = some "credit_card"
  · rw [if_pos htarget] at h ⊢
    refine iff_of_true ?_ htarget
    by_cases hsource : sourceSlug = some "credit_card"
    · rw [if_pos hsource, raiseIf_eq_ok] at h
      match closeDay with
      | none => exact hday.mpr hsource
      | some none => exact absurd rfl h
      | some (some d) => exact Option.some_ne_none d
    · rw [if_neg hsource, raiseIf_eq_ok] at h
      match closeDay with
      | none => exact absurd rfl h
      | some none => exact absurd rfl h
      | some (some d) => exact Option.some_ne_none d
  · rw [if_neg htarget]
    exact iff_of_false (fun hne => hne rfl) htarget

/-- A locked update leaves the close day coupled with the type. -/
theorem lockedUpdate_coupled (h : lockedUpdate accountTypes org row target body = .ok account)
    (hrow : ∀ a ∈ row, CloseDayCoupled accountTypes a.toAccount) :
    CloseDayCoupled accountTypes account.toAccount := by
  unfold lockedUpdate applyTypeChangeInSession applyNonTypeFields at h
  simp only [↓unit_bind_eq_ok, bind_eq_ok, orRaise_eq_ok, pure_eq_ok] at h
  obtain ⟨-, ⟨a, ha, t, ht, hcascade, rfl⟩, -, rfl⟩ := h
  have hday := closeDay_of_cascade hcascade (hrow a (Option.filter_eq_some_iff.mp ha).1)
  show _ ↔ typeSlug accountTypes target = some "credit_card"
  rw [typeSlug_of_get? ht]
  exact hday

/-- A locked update with the target that the request would read now is the whole request. -/
theorem updateAccountAtomic_of_target
    (h : lockedUpdate accountTypes org row target body = .ok account)
    (hbody : ∀ t ∈ body.accountTypeId, target = t)
    (hread : body.accountTypeId = none → ∀ a ∈ row, a.accountTypeId = target) :
    updateAccountAtomic accountTypes org row body = .ok (some account) := by
  have htarget : targetTypeId org row body = .ok target := by
    cases htype : body.accountTypeId with
    | some t => simp only [targetTypeId, htype, hbody t htype]
    | none =>
      have hlocked := h
      unfold lockedUpdate applyTypeChangeInSession at hlocked
      simp only [bind_eq_ok, orRaise_eq_ok] at hlocked
      obtain ⟨-, ⟨a, ha, -⟩, -⟩ := hlocked
      have hcurrent : a.accountTypeId = target :=
        hread htype a (Option.filter_eq_some_iff.mp ha).1
      simp only [targetTypeId, htype]
      rw [bind_of_ok (orRaise_eq_ok.mpr ha), hcurrent]
      rfl
  unfold updateAccountAtomic
  rw [bind_of_ok htarget, bind_of_ok h]
  rfl

namespace AccountUpdates

/-! ### Every interleaving -/

/-- What a request carries from one step to the next: the type that it names is its target, and what
it is going to commit was written under the lock that it has. -/
def Carries (W : Option AccountRow → AccountUpdate → AccountRow → Prop) (s : AccountUpdates) :
    UpdatePhase → Prop
  | .reading _ => True
  | .locking body target => ∀ t ∈ body.accountTypeId, target = t
  | .committing body account => s.locked = true ∧ W s.row body account

/-- No two requests are about to commit. -/
def OneCommits (p q : UpdatePhase) : Prop :=
  ∀ b a b' a', ¬(p = .committing b a ∧ q = .committing b' a')

theorem OneCommits.symm {p q : UpdatePhase} (h : OneCommits p q) : OneCommits q p :=
  fun b a b' a' hpq => h b' a' b a hpq.symm

variable {s : AccountUpdates} {W : Option AccountRow → AccountUpdate → AccountRow → Prop}

/-- While no request has the lock, none is about to commit. -/
theorem oneCommits_of_unlocked {q : UpdatePhase} (hq : Carries W s q) (hs : ¬s.locked = true)
    (p : UpdatePhase) : OneCommits q p := by
  rintro b a b' a' ⟨rfl, -⟩
  exact hs hq.1

/-- What every locked update that satisfies the condition makes sure of, every commit can rely
on. -/
theorem committed_invariant {ok : AccountUpdates → UpdatePhase → Prop}
    {I : Option AccountRow → List AccountUpdate → Prop}
    (hlock : ∀ s body target account, I s.row s.committed → ok s (.locking body target) →
      s.locked = false → (∀ t ∈ body.accountTypeId, target = t) →
      lockedUpdate accountTypes org s.row target body = .ok account → W s.row body account)
    (hcommit : ∀ row done body account, I row done → W row body account →
      I (some account) (done ++ [body]))
    (ts : List (Turn AccountUpdate)) (hrow : I row [])
    (hts : (sessions accountTypes org).Respects ok ⟨{ row }, []⟩ ts) :
    I ((sessions accountTypes org).interleave ⟨{ row }, []⟩ ts).shared.row
      ((sessions accountTypes org).interleave ⟨{ row }, []⟩ ts).shared.committed := by
  refine (Sessions.interleave_pairwise (I := fun s : AccountUpdates => I s.row s.committed)
    (J := Carries W) (K := OneCommits) OneCommits.symm (fun s r _ => ?_) (fun r q => ?_)
    (fun s p hs hp hok => ?_) ts hrow (by simp) List.Pairwise.nil hts).1
  · show Carries W s (.reading r)
    trivial
  · rintro b a b' a' ⟨-, h⟩
    cases h
  · cases p with
    | reading body =>
      show I (advance accountTypes org s (.reading body)).1.row _ ∧ _
      unfold sessions
      simp only [advance]
      cases htarget : targetTypeId org s.row body with
      | error e => exact ⟨hs, by simp, fun q hq _ => ⟨hq, by simp⟩⟩
      | ok target =>
        refine ⟨hs, ?_, fun q hq _ => ⟨hq, ?_⟩⟩
        · rintro _ ⟨⟩ t ht
          simp only [targetTypeId, Option.mem_def.mp ht] at htarget
          exact (Except.ok.inj htarget).symm
        · rintro _ ⟨⟩ b a b' a' ⟨-, h⟩
          cases h
    | locking body target =>
      show I (advance accountTypes org s (.locking body target)).1.row _ ∧ _
      unfold sessions
      simp only [advance]
      split_ifs with hlocked
      · exact ⟨hs, fun p' hp' => Option.some.inj hp' ▸ hp,
          fun q hq hK => ⟨hq, fun p' hp' => Option.some.inj hp' ▸ hK⟩⟩
      · cases hupdate : lockedUpdate accountTypes org s.row target body with
        | error e => exact ⟨hs, by simp, fun q hq _ => ⟨hq, by simp⟩⟩
        | ok account =>
          refine ⟨hs, ?_, fun q hq _ => ⟨?_, fun p' _ => oneCommits_of_unlocked hq hlocked p'⟩⟩
          · rintro _ ⟨⟩
            exact ⟨rfl, hlock s body target account hs hok (by simpa using hlocked) hp hupdate⟩
          · cases q with
            | committing b a => exact absurd hq.1 hlocked
            | _ => exact hq
    | committing body account =>
      refine ⟨hcommit s.row s.committed body account hs hp.2, ?_, fun q hq hK => ⟨?_, ?_⟩⟩
      · rintro _ ⟨⟩
      · cases q with
        | committing b a => exact absurd ⟨rfl, rfl⟩ (hK b a body account)
        | _ => exact hq
      · rintro _ ⟨⟩

/-- The type that a request without a type has read is still the type of the account when the
request gets the lock. -/
def TargetCurrent (s : AccountUpdates) : UpdatePhase → Prop
  | .locking body target =>
      s.locked = false → body.accountTypeId = none → ∀ a ∈ s.row, a.accountTypeId = target
  | _ => True

instance (s : AccountUpdates) : ∀ p : UpdatePhase, Decidable (TargetCurrent s p)
  | .locking body target => inferInstanceAs (Decidable
      (s.locked = false → body.accountTypeId = none → ∀ a ∈ s.row, a.accountTypeId = target))
  | .reading _ | .committing _ _ => .isTrue trivial

/-- In every interleaving the close day goes with the type. Where every type that was read is still
there under the lock, the requests that committed succeed one after another, in the order of their
commits, and lead to the account. -/
theorem serial (accountTypes : Table AccountType) (org : ℕ) (row : Option AccountRow)
    (hrow : ∀ a ∈ row, CloseDayCoupled accountTypes a.toAccount) (ts : List (Turn AccountUpdate)) :
    let s := ((sessions accountTypes org).interleave ⟨{ row }, []⟩ ts).shared
    (∀ a ∈ s.row, CloseDayCoupled accountTypes a.toAccount) ∧
      ((sessions accountTypes org).Respects TargetCurrent ⟨{ row }, []⟩ ts →
        s.committed.foldlM (updateAccountAtomic accountTypes org) row = .ok s.row) := by
  intro s
  have hall : (sessions accountTypes org).Respects (fun _ _ => True) ⟨{ row }, []⟩ ts :=
    Sessions.respects_of_forall (fun _ _ => trivial) _ ts
  refine ⟨?_, fun hts => ?_⟩
  · refine committed_invariant (W := fun _ _ a => CloseDayCoupled accountTypes a.toAccount)
      (I := fun row _ => ∀ a ∈ row, CloseDayCoupled accountTypes a.toAccount)
      (fun s body target account hs _ _ _ h => lockedUpdate_coupled h hs)
      (fun _ _ _ account _ h a ha => ?_) ts hrow
      hall
    exact Option.some.inj ha ▸ h
  · refine committed_invariant
      (W := fun row body a => updateAccountAtomic accountTypes org row body = .ok (some a))
      (I := fun now done => done.foldlM (updateAccountAtomic accountTypes org) row = .ok now)
      (fun s body target account _ hok hfree hbody h =>
        updateAccountAtomic_of_target h hbody (hok hfree))
      (fun now done body account hdone h => ?_) ts rfl hts
    rw [List.foldlM_append, bind_of_ok hdone, List.foldlM_cons, bind_of_ok h]
    rfl

/-! ### A type that is written back -/

/-- A credit-card type and a checking type. -/
def sampleTypes : Table AccountType :=
  ⟨[{ id := 1, orgId := 1, slug := some "credit_card" },
    { id := 2, orgId := 1, slug := some "checking" }], 3, by decide, by decide⟩

/-- A credit card that closes on the fifth. -/
def sampleCard : AccountRow where
  orgId := 1
  accountTypeId := 1
  name := "Card"
  closeDay := some 5
  openingBalanceDate := .of 2024 1 1

/-- A request that changes only the close day. -/
def sampleDayUpdate : AccountUpdate where
  closeDay := some (some 10)
  touches := by decide
  closeDay_range := by simp
  lower := by simp
  upper := by simp

/-- A request that changes only the type. -/
def sampleTypeUpdate : AccountUpdate where
  accountTypeId := some 2
  touches := by decide
  closeDay_range := by simp
  lower := by simp
  upper := by simp

/-- The two requests one after the other. -/
def sampleFresh : List (Turn AccountUpdate) :=
  [.start sampleDayUpdate, .advance 0, .advance 0, .advance 0,
    .start sampleTypeUpdate, .advance 0, .advance 0, .advance 0]

/-- The first request reads the type before the second has changed it. -/
def sampleStale : List (Turn AccountUpdate) :=
  [.start sampleDayUpdate, .advance 0, .start sampleTypeUpdate, .advance 1, .advance 1, .advance 1,
    .advance 0, .advance 0]

theorem sampleCard_coupled :
    ∀ a ∈ some sampleCard, CloseDayCoupled sampleTypes a.toAccount := by
  rintro _ ⟨⟩
  exact iff_of_true (Option.some_ne_none _) (by decide)

theorem serial_of_sampleFresh :
    ((sessions sampleTypes 1).interleave ⟨{ row := some sampleCard }, []⟩ sampleFresh).shared.row =
        some { sampleCard with accountTypeId := 2, closeDay := none } ∧
      ((sessions sampleTypes 1).interleave ⟨{ row := some sampleCard }, []⟩
        sampleFresh).shared.committed.foldlM (updateAccountAtomic sampleTypes 1) (some sampleCard) =
          .ok ((sessions sampleTypes 1).interleave ⟨{ row := some sampleCard }, []⟩
            sampleFresh).shared.row :=
  ⟨by decide, (serial sampleTypes 1 _ sampleCard_coupled sampleFresh).2 (by decide)⟩

/-- Both requests of the interleaving succeed, and the account is a credit card again, which it is
after neither order of the two. -/
theorem not_serial_of_sampleStale :
    let s := ((sessions sampleTypes 1).interleave ⟨{ row := some sampleCard }, []⟩
      sampleStale).shared
    s.row = some { sampleCard with closeDay := some 10 } ∧
      ∀ order, order.Perm s.committed →
        serveAll (updateAccountAtomic sampleTypes 1) (some sampleCard) order ≠ s.row := by
  refine ⟨by decide, fun order horder => ?_⟩
  have hcommitted : ((sessions sampleTypes 1).interleave ⟨{ row := some sampleCard }, []⟩
      sampleStale).shared.committed = [sampleTypeUpdate, sampleDayUpdate] := rfl
  rw [hcommitted, List.perm_pair] at horder
  rcases horder with rfl | rfl
  · decide
  · decide

end AccountUpdates

end Pfv
