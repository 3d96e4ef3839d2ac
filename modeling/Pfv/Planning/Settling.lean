import Pfv.Ledger.Requests
import Pfv.Services.Projections

/-!
# Settling what is pending

The balance an account is expected to have at the end of a period is one sum over its pending rows.
Settling those rows one by one, each by an update of its own, leaves the account with this balance,
whatever the order and the settled dates.

## Main definitions

* `SettleRequest`, `settleAll`: updates that settle one row each.
* `pendingOn`: the pending rows of a period on an account.

## Main results

* `settle_ok`: what one update that settles a row does.
* `settleAll_balance`: what a run of them does to a balance.
* `total_pendingByAccount`: what the projection adds up.
* `projection_is_what_settling_produces`.
-/

namespace Pfv

/-! ### Settling rows -/

/-- A request that settles a row on a day; `settledDate` is the date it gives, if any. -/
structure SettleRequest where
  id : ℕ
  settledDate : Option (Option Date)
  today : Date

theorem SettleRequest.description_ok : ∀ d ∈ (none : Option String), d ≠ "" := by simp

/-- The update of a row that settles it and changes nothing else. -/
def SettleRequest.body (r : SettleRequest) : TransactionUpdate where
  status := some .settled
  settledDate := r.settledDate
  description_ok := SettleRequest.description_ok

/-- Settle one row. -/
def settle (org : ℕ) (db : Db) (r : SettleRequest) : Except ServiceError Db :=
  (updateTransaction db org r.id r.body r.today).map Prod.fst

/-- Settle rows one by one. -/
def settleAll (db : Db) (org : ℕ) (rs : List SettleRequest) : Except ServiceError Db :=
  rs.foldlM (settle org) db

variable {db db' : Db} {org : ℕ} {r : SettleRequest} {t : Transaction}

/-- Settling a pending row revises it, leaves every other row, and applies its amount. -/
theorem settle_ok (ht : db.transactions.get? r.id = some t) (hpending : t.status = .pending)
    (h : settle org db r = .ok db') :
    t.type ≠ .transfer ∧
      (∀ i ≠ r.id, db'.transactions.get? i = db.transactions.get? i) ∧
      db'.accounts = (db.credit t.accountId (t.type.signed t.amount)).accounts := by
  simp only [settle, map_eq_ok, updateTransaction, bind_eq_ok] at h
  obtain ⟨⟨after, edited⟩, ⟨ids, -, hlocked⟩, rfl⟩ := h
  obtain ⟨tx, htx, -, hedited, -, hrevised⟩ := updateTransactionLocked_ok hlocked
  obtain ⟨_, mirror, _, hwrite⟩ := updateTransactionLocked_writes hlocked
  obtain rfl : tx = t := Option.some_inj.mp ((Db.transaction?_eq_some.mp htx).1.symm.trans ht)
  have htxId : tx.id = r.id := Db.transaction?_id htx
  have hid : edited.id = r.id := by
    rw [hedited]
    exact htxId
  -- The row keeps its account, its type and its amount, and is settled.
  have hsame : edited.accountId = tx.accountId ∧ edited.type = tx.type ∧
      edited.amount = tx.amount ∧ edited.status = .settled := by
    rw [hedited]
    exact ⟨rfl, rfl, rfl, rfl⟩
  obtain ⟨hacct, htype, hamount, hstatus⟩ := hsame
  have hdb : after = db.revise tx edited := by
    rcases hrevised with ⟨-, hdb⟩ | ⟨p, -, ⟨-, -, hdb⟩ | ⟨amount, hbody, -⟩⟩
    · exact hdb
    · exact hdb
    · exact absurd hbody (by simp [SettleRequest.body])
  have hbefore : tx.settledAmount = 0 := by
    rw [Transaction.settledAmount, if_neg (by simp [hpending])]
  have hafter : edited.settledAmount = tx.type.signed tx.amount := by
    rw [Transaction.settledAmount, if_pos hstatus, htype, hamount]
  refine ⟨htype ▸ writeEdit_type hwrite hstatus, fun i hi => ?_, ?_⟩
  · rw [hdb, Db.get?_revise, if_neg (hid ▸ hi)]
  · rw [hdb, Db.revise, hbefore, neg_zero, Db.credit_zero, hacct, hafter]
    rfl

/-- What a row adds to the balance of an account when it is settled. -/
def settlingAmount (db : Db) (accountId i : ℕ) : ℤ :=
  ((db.transactions.get? i).map fun t =>
    if t.accountId = accountId then t.type.signed t.amount else 0).getD 0

/-- The balance of an account. -/
def Db.balanceOf (db : Db) (accountId : ℕ) : Option ℤ :=
  (db.accounts.get? accountId).map (·.balance)

/-- Settling pending rows adds the amount of each to the balance of its account. -/
theorem settleAll_balance {rs : List SettleRequest} {accountId : ℕ}
    (hpending : ∀ r ∈ rs, ∃ t, db.transactions.get? r.id = some t ∧ t.status = .pending)
    (hnodup : (rs.map (·.id)).Nodup) (h : settleAll db org rs = .ok db') :
    db'.balanceOf accountId = (db.balanceOf accountId).map
        (· + (rs.map fun r => settlingAmount db accountId r.id).sum) ∧
      ∀ r ∈ rs, ∀ t, db.transactions.get? r.id = some t → t.type ≠ .transfer := by
  induction rs generalizing db with
  | nil =>
    rw [settleAll, List.foldlM_nil, pure_eq_ok] at h
    subst h
    simp
  | cons r rs ih =>
    rw [settleAll, List.foldlM_cons, bind_eq_ok] at h
    obtain ⟨mid, hmid, hrest⟩ := h
    rw [List.map_cons, List.nodup_cons] at hnodup
    obtain ⟨t, ht, hstatus⟩ := hpending r List.mem_cons_self
    obtain ⟨htype, hothers, haccounts⟩ := settle_ok ht hstatus hmid
    have hother : ∀ r' ∈ rs, mid.transactions.get? r'.id = db.transactions.get? r'.id :=
      fun r' hr' => hothers _ fun hid => hnodup.1 (hid ▸ List.mem_map_of_mem hr')
    obtain ⟨hbalance, htypes⟩ := ih (fun r' hr' => by
      rw [hother r' hr']
      exact hpending r' (List.mem_cons_of_mem r hr')) hnodup.2 hrest
    refine ⟨?_, ?_⟩
    · have hsame : (rs.map fun r' => settlingAmount mid accountId r'.id) =
          rs.map fun r' => settlingAmount db accountId r'.id :=
        List.map_congr_left fun r' hr' => by rw [settlingAmount, hother r' hr', settlingAmount]
      have hfirst : mid.balanceOf accountId =
          (db.balanceOf accountId).map (· + settlingAmount db accountId r.id) := by
        rw [Db.balanceOf, haccounts, Db.get?_credit, settlingAmount, ht]
        simp only [Option.map_map, Option.map_some, Option.getD_some, Db.balanceOf,
          Function.comp_def, eq_comm (a := accountId)]
        congr 1
        funext acct
        split_ifs <;> simp
      rw [hbalance, hfirst, hsame, Option.map_map, List.map_cons, List.sum_cons]
      congr 1
      funext x
      exact add_assoc _ _ _
    · rintro r' hr' t' ht'
      rcases List.mem_cons.mp hr' with rfl | hr'
      · rw [ht, Option.some_inj] at ht'
        exact ht' ▸ htype
      · exact htypes r' hr' t' (by rw [hother r' hr', ht'])

/-! ### The projection -/

/-- The pending rows of a period on an account, without manual adjustments. -/
def pendingOn (db : Db) (org : ℕ) (p : BillingPeriod) (accountId : ℕ) : List Transaction :=
  db.transactions.rows.filter fun t => t.PendingIn org p ∧ t.accountId = accountId

/-- The sign a total of pending rows has for an account. -/
def pendingSign (accountId : ℕ) (key : ℕ × TransactionType) : ℤ →+ ℤ :=
  if key.1 = accountId then
    if key.2 = .expense then -AddMonoidHom.id ℤ else AddMonoidHom.id ℤ
  else 0

variable {p : BillingPeriod} {accountId : ℕ}

/-- The projection adds up the pending rows of an account, expenses with a negative sign. -/
theorem total_pendingByAccount (db : Db) (org : ℕ) (p : BillingPeriod) (accountId : ℕ) :
    total (pendingByAccount db org p) accountId =
      ((pendingOn db org p accountId).map fun t =>
        if t.type = .expense then -t.amount else t.amount).sum := by
  have hgroups : total (pendingByAccount db org p) accountId =
      ((pendingGroups db org p).map fun g => pendingSign accountId g.1 g.2).sum := by
    rw [pendingByAccount, total_tally, List.filter_map, List.map_map]
    have hall : ((pendingGroups db org p).map fun g => pendingSign accountId g.1 g.2) =
        ((pendingGroups db org p).filter fun _ => True).map fun g =>
          pendingSign accountId g.1 g.2 := by
      simp
    rw [hall]
    refine sum_filter_congr fun g _ => ?_
    simp only [Function.comp_apply, pendingSign]
    split_ifs <;> simp_all
  rw [hgroups, pendingGroups, sum_map_tally, List.map_map]
  refine sum_filter_congr fun t _ => ?_
  simp only [Function.comp_apply, pendingSign]
  split_ifs <;> simp_all

/-- A row that is no transfer adds its amount with the sign the projection gives it. -/
theorem signed_of_ne_transfer (h : t.type ≠ .transfer) :
    t.type.signed t.amount = if t.type = .expense then -t.amount else t.amount := by
  cases htype : t.type with
  | transfer => exact absurd htype h
  | income => rfl
  | expense => rfl

/-- Settling the pending rows of a period on an account, in any order, leaves the account with the
balance the projection expects. -/
theorem balance_of_settleAll {rs : List SettleRequest}
    (hperm : (rs.map (·.id)).Perm ((pendingOn db org p accountId).map (·.id)))
    (h : settleAll db org rs = .ok db') :
    db'.balanceOf accountId =
      (db.balanceOf accountId).map (· + total (pendingByAccount db org p) accountId) := by
  have hmem : ∀ t ∈ pendingOn db org p accountId,
      db.transactions.get? t.id = some t ∧ t.status = .pending ∧ t.accountId = accountId := by
    intro t ht
    obtain ⟨hrow, hcond⟩ := List.mem_filter.mp ht
    obtain ⟨hpending, hacct⟩ := of_decide_eq_true hcond
    exact ⟨Table.get?_of_mem hrow, hpending.2.1, hacct⟩
  have hnodup : ((pendingOn db org p accountId).map (·.id)).Nodup :=
    (List.filter_sublist.map _).nodup db.transactions.nodup
  have hrows : ∀ r ∈ rs, ∃ t, db.transactions.get? r.id = some t ∧ t.status = .pending := by
    intro r hr
    obtain ⟨t, ht, hid⟩ := List.mem_map.mp (hperm.mem_iff.mp (List.mem_map_of_mem hr))
    obtain ⟨hget, hpending, -⟩ := hmem t ht
    exact ⟨t, hid ▸ hget, hpending⟩
  obtain ⟨hbalance, htypes⟩ := settleAll_balance hrows (hperm.nodup_iff.mpr hnodup) h
  rw [hbalance, total_pendingByAccount]
  have hsum : (rs.map fun r => settlingAmount db accountId r.id).sum =
      ((pendingOn db org p accountId).map fun t => settlingAmount db accountId t.id).sum := by
    have hids := (hperm.map (settlingAmount db accountId)).sum_eq
    simpa only [List.map_map, Function.comp_def] using hids
  rw [hsum]
  refine congrArg (fun x => (db.balanceOf accountId).map (· + x)) (congrArg List.sum ?_)
  refine List.map_congr_left fun t ht => ?_
  obtain ⟨hget, -, hacct⟩ := hmem t ht
  -- The row is settled by some request, so it is no transfer.
  obtain ⟨r, hr, hid⟩ := List.mem_map.mp (hperm.mem_iff.mpr (List.mem_map_of_mem ht))
  rw [settlingAmount, hget, Option.map_some, Option.getD_some, if_pos hacct]
  exact signed_of_ne_transfer (htypes r hr t (hid ▸ hget))

/-! ### Totals by currency -/

/-- The total of a currency is the sum over the accounts that have it. -/
theorem currencyTotals_eq {accounts : List AccountForecast} {tot : CurrencyTotal}
    (htot : tot ∈ currencyTotals accounts) :
    tot.balance = ((accounts.filter (·.currency = tot.currency)).map (·.balance)).sum ∧
      tot.pendingDelta = ((accounts.filter (·.currency = tot.currency)).map (·.pendingDelta)).sum ∧
      tot.expectedMonthEndBalance = tot.balance + tot.pendingDelta := by
  obtain ⟨b, hb, rfl⟩ := List.mem_map.mp htot
  have hmem : b ∈ tally (accounts.map fun a => (a.currency, (a.balance, a.pendingDelta))) :=
    (List.perm_insertionSort _ _).mem_iff.mp hb
  have htotal := total_of_mem (nodup_keys_tally _) hmem
  rw [total_tally, List.filter_map, List.map_map] at htotal
  have hfst := congrArg (AddMonoidHom.fst ℤ ℤ) htotal
  have hsnd := congrArg (AddMonoidHom.snd ℤ ℤ) htotal
  rw [map_list_sum, List.map_map] at hfst hsnd
  exact ⟨hfst.symm, hsnd.symm, rfl⟩

/-- For every state of the ledger, every period and every active account: when its pending rows of
the period are settled one by one by updates, in any order and with any settled dates, its balance
ends as the one the projection expected. Every total of a currency is the sum over the accounts with
it. -/
theorem projection_is_what_settling_produces (db : Db) (org : ℕ) (p : BillingPeriod) :
    (∀ a ∈ db.accounts.rows, a.orgId = org → a.isActive = true →
      (db.accountTypes.get? a.accountTypeId).isSome = true →
      ∃ f ∈ (computeAccountBalanceForecast db org p).accounts,
        f.accountId = a.id ∧ f.currency = a.currency ∧
        ∀ rs db', (rs.map SettleRequest.id).Perm ((pendingOn db org p a.id).map (·.id)) →
          settleAll db org rs = .ok db' → db'.balanceOf a.id = some f.expectedMonthEndBalance) ∧
    (∀ f ∈ (computeAccountBalanceForecast db org p).accounts,
      ∃ tot ∈ (computeAccountBalanceForecast db org p).totals, tot.currency = f.currency) ∧
    ∀ tot ∈ (computeAccountBalanceForecast db org p).totals,
      let accounts := (computeAccountBalanceForecast db org p).accounts.filter
        (·.currency = tot.currency)
      tot.balance = (accounts.map (·.balance)).sum ∧
        tot.pendingDelta = (accounts.map (·.pendingDelta)).sum ∧
        tot.expectedMonthEndBalance = (accounts.map (·.expectedMonthEndBalance)).sum := by
  refine ⟨fun a ha horg hactive htype => ?_, fun f hf => ?_, fun tot htot => ?_⟩
  · obtain ⟨ty, hty⟩ := Option.isSome_iff_exists.mp htype
    have hmem : (a, ty.slug) ∈ activeAccounts db org :=
      List.mem_filterMap.mpr ⟨a, List.mem_filter.mpr ⟨ha, by simp [horg, hactive]⟩, by simp [hty]⟩
    refine ⟨forecastAccount db org p (a, ty.slug), List.mem_map_of_mem hmem, rfl, rfl,
      fun rs db' hperm h => ?_⟩
    have hbalance : db.balanceOf a.id = some a.balance := by
      rw [Db.balanceOf, show db.accounts.get? a.id = some a from Table.get?_of_mem ha]
      rfl
    rw [balance_of_settleAll hperm h, hbalance]
    rfl
  · have hkey : f.currency ∈ (tally ((computeAccountBalanceForecast db org p).accounts.map
        fun a => (a.currency, (a.balance, a.pendingDelta)))).map Prod.fst := by
      rw [mem_keys_tally, List.map_map]
      exact List.mem_map_of_mem hf
    obtain ⟨b, hb, hcurrency⟩ := List.mem_map.mp hkey
    refine ⟨_, List.mem_map_of_mem ((List.perm_insertionSort _ _).mem_iff.mpr hb), hcurrency⟩
  · obtain ⟨hbalance, hdelta, hexpected⟩ := currencyTotals_eq htot
    refine ⟨hbalance, hdelta, ?_⟩
    rw [hexpected, hbalance, hdelta, ← List.sum_map_add]
    refine congrArg List.sum (List.map_congr_left fun f hf => ?_)
    obtain ⟨a, -, rfl⟩ := List.mem_map.mp (List.mem_of_mem_filter hf)
    rfl

/-! ### Sample settling -/

/-- A pending row of a type on the sample account. -/
def samplePendingRow (type : TransactionType) (amount : ℤ) : Transaction where
  orgId := 1
  accountId := 1
  categoryId := 1
  description := "Rent"
  amount := amount
  type := type
  status := .pending
  date := sampleDate
  settledDate := none

/-- An account with a pending expense and a pending income. -/
def samplePending : Db :=
  { sampleDb with
    accounts := Table.empty.insert
      { orgId := 1, accountTypeId := 1, name := "Bank", openingBalanceDate := sampleDate }
    transactions := (Table.empty.insert (samplePendingRow .expense 1000)).insert
      (samplePendingRow .income 3000) }

/-- The income is settled first, on the day after. -/
def sampleSettling : List SettleRequest :=
  [⟨2, some (some sampleDate.nextDay), sampleDate⟩, ⟨1, none, sampleDate⟩]

def samplePeriod : BillingPeriod :=
  { orgId := 1, startDate := sampleDate }

theorem projection_of_samplePending :
    ∃ f ∈ (computeAccountBalanceForecast samplePending 1 samplePeriod).accounts, f.accountId = 1 ∧
      ∃ db', settleAll samplePending 1 sampleSettling = .ok db' ∧
        db'.balanceOf 1 = some f.expectedMonthEndBalance := by
  obtain ⟨f, hf, hid, -, hrun⟩ := (projection_is_what_settling_produces samplePending 1
    samplePeriod).1 _ (.head _) rfl rfl rfl
  refine ⟨f, hf, hid, ?_⟩
  cases h : settleAll samplePending 1 sampleSettling with
  | ok db' => exact ⟨db', rfl, hrun sampleSettling db' (by decide +kernel) h⟩
  | error e =>
    have hok : (settleAll samplePending 1 sampleSettling).toOption.isSome = true := by
      decide +kernel
    rw [h] at hok
    exact absurd hok (by simp [Except.toOption])

example : (computeAccountBalanceForecast samplePending 1 samplePeriod).totals =
    [⟨"EUR", 0, 2000, 2000⟩] := by
  decide +kernel

end Pfv
