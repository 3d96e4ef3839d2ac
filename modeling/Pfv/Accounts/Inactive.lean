import Pfv.Ledger.Requests
import Pfv.Services.AccountUpdates

/-!
# Money on inactive accounts

An account is deactivated at a balance of zero only, but no other operation looks at the flag: rows
can be posted to an inactive account, and the old rows on it can be settled, edited, skipped and
deleted. Its balance stays zero as long as every request leaves what counts on it alone.

## Main definitions

* `Db.InactiveEmpty`: every inactive account has a balance of zero.
* `Db.Rests db db'`: every account that is inactive afterwards was there as it is.
* `BookRequest`: a request of the ledger, or an update of an account.
* `BookRequest.SparesInactive`: a request that moves no money on an inactive account, by the rows it
  names.

## Main results

* `Db.GrowsMany.rests`, `Request.step_rests`: such a request leaves the inactive accounts as they
  are.
* `inactiveEmpty_of_run`: no money is left on an inactive account in a run of such requests.
* `not_inactiveEmpty_of_sampleDeactivated`: deleting a row of an inactive account moves its balance.
-/

namespace Pfv

namespace Db

/-! ### Accounts that rest -/

/-- There is no inactive account with the id. -/
def Active (db : Db) (a : ℕ) : Prop :=
  (db.accounts.get? a).all (·.isActive) = true

instance (db : Db) (a : ℕ) : Decidable (db.Active a) :=
  inferInstanceAs (Decidable (_ = true))

/-- No money is on an inactive account. -/
def InactiveEmpty (db : Db) : Prop :=
  ∀ a ∈ db.accounts.rows, a.isActive = false → a.balance = 0

instance (db : Db) : Decidable db.InactiveEmpty :=
  inferInstanceAs (Decidable (∀ a ∈ db.accounts.rows, a.isActive = false → a.balance = 0))

/-- Every account that is inactive afterwards was inactive before and is as it was. -/
def Rests (db db' : Db) : Prop :=
  ∀ k a, db'.accounts.get? k = some a → a.isActive = false → db.accounts.get? k = some a

variable {db db' db'' : Db}

theorem Rests.refl (db : Db) : db.Rests db := fun _ _ ha _ => ha

theorem Rests.trans (h : db.Rests db') (h' : db'.Rests db'') : db.Rests db'' :=
  fun k a ha hinactive => h k a (h' k a ha hinactive) hinactive

theorem Rests.of_eq (h : db'.accounts = db.accounts) : db.Rests db' :=
  fun _ _ ha _ => h ▸ ha

/-- A step that leaves the inactive accounts alone leaves the active ones active. -/
theorem Rests.active (h : db.Rests db') {a : ℕ} (ha : db.Active a) : db'.Active a := by
  unfold Active at ha ⊢
  rw [Option.all_eq_true] at ha ⊢
  intro acct hacct
  by_contra hinactive
  exact hinactive (ha acct (h a acct hacct (Bool.not_eq_true _ ▸ hinactive)))

theorem Rests.inactiveEmpty (h : db.Rests db') (hempty : db.InactiveEmpty) : db'.InactiveEmpty := by
  intro a ha hinactive
  exact hempty a (Table.get?_mem (h a.id a (Table.get?_of_mem ha) hinactive)) hinactive

/-! ### Rows that an inactive account can spare -/

/-- A row counts for nothing, or its account is not inactive. -/
def Spares (db : Db) (t : Transaction) : Prop :=
  t.settledAmount = 0 ∨ db.Active t.accountId

/-- Replacing a row moves nothing on an inactive account. -/
def SparesEdit (db : Db) (t t' : Transaction) : Prop :=
  t'.accountId = t.accountId ∧ t'.settledAmount = t.settledAmount ∨ db.Spares t ∧ db.Spares t'

instance (db : Db) (t : Transaction) : Decidable (db.Spares t) :=
  inferInstanceAs (Decidable (_ ∨ _))

instance (db : Db) (t t' : Transaction) : Decidable (db.SparesEdit t t') :=
  inferInstanceAs (Decidable (_ ∨ _))

theorem Spares.rests (h : db.Rests db') {t : Transaction} (ht : db.Spares t) : db'.Spares t :=
  ht.imp_right h.active

theorem spares_of_pending {t : Transaction} (h : t.status = .settled → db.Active t.accountId) :
    db.Spares t := by
  by_cases hsettled : t.status = .settled
  · exact .inr (h hsettled)
  · exact .inl (if_neg hsettled)

theorem rests_credit {a : ℕ} {x : ℤ} (h : x = 0 ∨ db.Active a) : db.Rests (db.credit a x) := by
  intro k acct' hacct' hinactive
  rw [get?_credit, Option.map_eq_some_iff] at hacct'
  obtain ⟨acct, hacct, rfl⟩ := hacct'
  rw [hacct]
  split_ifs at hinactive ⊢ with hk
  · rcases h with rfl | hactive
    · rw [add_zero]
    · -- The credited account is active, before and afterwards.
      subst hk
      unfold Active at hactive
      rw [hacct, Option.all_some] at hactive
      exact absurd (hactive.symm.trans hinactive) (by decide)
  · rfl

theorem rests_post {t : Transaction} (h : db.Spares t) : db.Rests (db.post t) :=
  @rests_credit (db.addTransaction t) _ _ h

theorem rests_revise {t t' : Transaction} (h : db.SparesEdit t t') : db.Rests (db.revise t t') := by
  rcases h with ⟨hacc, hamount⟩ | ⟨ht, ht'⟩
  · have hsame : (db.revise t t').accounts = db.accounts := by
      show ((db.credit t.accountId (-t.settledAmount)).credit t'.accountId
        t'.settledAmount).accounts = db.accounts
      rw [hacc, hamount, credit_credit, neg_add_cancel, credit_zero]
    exact .of_eq hsame
  · have hfirst : db.Rests ((db.credit t.accountId (-t.settledAmount)).putTransaction t') :=
      rests_credit (ht.imp_left fun hzero => by rw [hzero, neg_zero])
    exact hfirst.trans (rests_credit (ht'.rests hfirst))

theorem rests_restate {t t' : Transaction}
    (h : t'.reportedAmount = t.reportedAmount ∨ db.Active t.accountId) :
    db.Rests (db.restate t t') := by
  have hcredit := rests_credit (h.imp_left fun heq => sub_eq_zero.mpr heq)
  exact hcredit

theorem rests_remove {rows : List Transaction} (h : ∀ t ∈ rows, db.Spares t) :
    db.Rests (db.remove rows) := by
  have hrevert : ∀ (l : List Transaction) (d : Db), db.Rests d → (∀ t ∈ l, db.Spares t) →
      db.Rests (d.revertAll l) := by
    intro l
    induction l with
    | nil => exact fun d hd _ => hd
    | cons t l ih =>
      intro d hd hl
      have ht := (hl t List.mem_cons_self).rests hd
      exact ih _ (hd.trans (rests_credit (ht.imp_left fun hzero => by rw [hzero, neg_zero])))
        fun u hu => hl u (List.mem_cons_of_mem t hu)
  exact hrevert rows db (.refl db) h

/-- The single delete takes the linked row off its balance by the status of the requested row. -/
theorem rests_deleteCascade {tx : Transaction} {linkedTx : Option Transaction}
    (htx : db.Spares tx)
    (hlinked : tx.status = .settled →
      ∀ p ∈ linkedTx, p.type.signed p.amount = 0 ∨ db.Active p.accountId) :
    db.Rests (db.deleteCascade tx linkedTx) := by
  cases linkedTx with
  | none => exact rests_remove fun t ht => List.mem_singleton.mp ht ▸ htx
  | some p =>
    unfold deleteCascade
    split_ifs with hsettled
    · have hamount : tx.settledAmount = tx.type.signed tx.amount := if_pos hsettled
      have hfirst : db.Rests (db.credit tx.accountId (-tx.type.signed tx.amount)) :=
        rests_credit (htx.imp_left fun hzero => by rw [← hamount, hzero, neg_zero])
      have hp : -p.type.signed p.amount = 0 ∨
          (db.credit tx.accountId (-tx.type.signed tx.amount)).Active p.accountId :=
        (hlinked hsettled p rfl).imp neg_eq_zero.mpr hfirst.active
      exact hfirst.trans (rests_credit hp)
    · exact .refl db

/-! ### Steps that add to the ledger -/

/-- Adding to the ledger rows that an inactive account can spare. -/
theorem GrowsMany.rests (h : db.GrowsMany db.Spares db') : db.Rests db' := by
  refine h.induct (I := fun d => db.Rests d) (fun {d d'} hd hgrow => ?_) (.refl db)
  refine hd.trans ?_
  cases hgrow with
  | openAccount a hopening hactive =>
    intro k acct hacct hinactive
    rw [Table.get?_insert] at hacct
    split_ifs at hacct
    · obtain rfl := Option.some_inj.mp hacct
      exact absurd (hactive.symm.trans hinactive) (by decide)
    · exact hacct
  | post t hrow hnew hP => exact rests_post (hP.rests hd)
  | addCategory | setTemplates | link | retemplate | openBatch => exact .of_eq rfl

end Db

/-! ### Requests of the ledger -/

/-- A transition leaves what the row reports, or its account is not inactive. -/
def sparesTransition (org : ℕ) (s : Db × ImportBatch) (tr : ReconciliationTransition) : Prop :=
  ∀ tx ∈ s.1.transaction? tr.transactionId org, tx.reconciliationState = tr.toState ∨
    (tr.result tx).reportedAmount = tx.reportedAmount ∨ s.1.Active tx.accountId

instance (org : ℕ) (s : Db × ImportBatch) (tr : ReconciliationTransition) :
    Decidable (sparesTransition org s tr) :=
  inferInstanceAs (Decidable (∀ tx ∈ s.1.transaction? tr.transactionId org, _))

/-- An edit moves nothing on an inactive account, neither by the row nor by the partner that mirrors
its amount. -/
def sparesUpdate (db : Db) (org id : ℕ) (body : TransactionUpdate) (today : Date) : Prop :=
  ∀ tx ∈ db.transaction? id org, db.SparesEdit tx (editTransaction tx body today) ∧
    ∀ amount ∈ body.amount, ∀ p ∈ tx.linkedTransactionId.bind fun l => db.transaction? l org,
      db.SparesEdit p { p with amount := amount.cents }

instance (db : Db) (org id : ℕ) (body : TransactionUpdate) (today : Date) :
    Decidable (sparesUpdate db org id body today) :=
  inferInstanceAs (Decidable (∀ tx ∈ db.transaction? id org, _))

/-- A single delete takes nothing off an inactive account. -/
def sparesDelete (db : Db) (org id : ℕ) : Prop :=
  ∀ tx ∈ db.transaction? id org, db.Spares tx ∧ (tx.status = .settled →
    ∀ p ∈ tx.linkedTransactionId.bind fun l => db.transaction? l org,
      p.type.signed p.amount = 0 ∨ db.Active p.accountId)

instance (db : Db) (org id : ℕ) : Decidable (sparesDelete db org id) :=
  inferInstanceAs (Decidable (∀ tx ∈ db.transaction? id org, _))

/-- The rows that an import stores are not for an inactive account. -/
def sparesImport (db : Db) (body : ImportConfirmRequest) : Prop :=
  ∀ row ∈ body.rows, row.skip = true ∨ row.action = .dropAsDuplicate ∨
    db.Active body.accountId ∧ (row.action = .createTransferPair →
      ∀ p ∈ row.partnerAccountId, db.Active p)

instance (db : Db) (body : ImportConfirmRequest) : Decidable (sparesImport db body) :=
  inferInstanceAs (Decidable (∀ row ∈ body.rows, _))

theorem active_of_postsTo {db : Db} {body : ImportConfirmRequest} (h : sparesImport db body) {a : ℕ}
    (ha : body.PostsTo a) : db.Active a := by
  obtain ⟨row, hrow, hskip, haction, hposts⟩ := ha
  rcases h row hrow with hskip' | hdrop | ⟨hown, hpartner⟩
  · rw [hskip] at hskip'
    exact absurd hskip' (by decide)
  · exact absurd hdrop haction
  · rcases hposts with rfl | ⟨hpair, hp⟩
    · exact hown
    · exact hpartner hpair a hp

namespace Request

variable {db db' : Db} {r : Request}

/-- No row that a request posts, edits, settles, skips or takes off moves money on an inactive
account. -/
def SparesInactive (db : Db) : Request → Prop
  | .create org body isImported => db.Spares (body.row org isImported false none)
  | .createNoCommit org body isImported isManualAdjustment fitid =>
      db.Spares (body.row org isImported isManualAdjustment fitid)
  | .transfer _ body =>
      body.status = .settled → db.Active body.fromAccountId ∧ db.Active body.toAccountId
  | .update org id body today => sparesUpdate db org id body today
  | .delete org id => sparesDelete db org id
  | .bulkDelete org ids =>
      ∀ t ∈ db.bulkRows org (bulkDeletePreview db org ids.eraseDups), db.Spares t
  | .convert org sourceTxId destinationAccountId _ _ =>
      ∀ source ∈ db.transaction? sourceTxId org,
        db.Spares (partnerLeg org destinationAccountId source)
  | .adjust _ accountId _ _ => db.Active accountId
  | .executeImport _ body _ => sparesImport db body
  | .generateDue org today => ∀ r ∈ dueTemplates db org today, db.Spares r.row
  | .reconcile org batchId body =>
      ∀ batch ∈ db.importBatch? batchId org,
        Admits (sparesTransition org) (reconcileOne org) (db, batch) body.transitions
  | _ => True

instance (db : Db) (r : Request) : Decidable (r.SparesInactive db) := by
  cases r <;> unfold SparesInactive <;> infer_instance

/-- Reconcile requests restate the rows of the batch one after another. -/
theorem reconcile_rests {org batchId : ℕ} {body : ReconcileBatchRequest}
    {response : ReconcileBatchResponse} (hwf : db.WellFormed)
    (hspares : SparesInactive db (.reconcile org batchId body))
    (h : reconcileRequest db org batchId body = .ok (db', response)) : db.Rests db' := by
  obtain ⟨batch, db₁, batch₁, hbatch, hloop, rfl⟩ := reconcileRequest_ok h
  have hrun := serveAll_of_foldlM hloop
  have hinv := serveAll_invariant (I := fun s : Db × ImportBatch => s.1.WellFormed ∧ db.Rests s.1)
    (fun s tr s' ⟨hs, hrests⟩ hok hone => ?_) body.transitions ⟨hwf, .refl db⟩
    (hspares batch hbatch)
  · rw [hrun] at hinv
    exact hinv.2.trans (.of_eq rfl)
  · refine ⟨reconcileOne_wellFormed hs hone, hrests.trans ?_⟩
    obtain ⟨tx, htx, -, ⟨-, rfl⟩ | ⟨hne, -, -, rfl, -⟩⟩ :=
      reconcileOne_result (fun tx htx hb => hs.manual_of_batch htx hb) hone
    · exact .refl _
    · exact Db.rests_restate ((hok tx htx).resolve_left hne)

/-- A request that spares the inactive accounts leaves them as they are. -/
theorem step_rests (hwf : db.WellFormed) (hspares : r.SparesInactive db) (h : step db r = .ok db') :
    db.Rests db' := by
  cases r with
  | createAccount org body today => exact (createAccount_grows h).rests
  | create org body imported =>
    obtain ⟨_, h⟩ := map_fst_eq_ok.mp h
    exact (createTransactionNoCommit_grows (fun _ => hspares) h).rests
  | createNoCommit org body imported manual fitid =>
    obtain ⟨_, h⟩ := map_fst_eq_ok.mp h
    exact (createTransactionNoCommit_grows (fun _ => hspares) h).rests
  | transfer org body =>
    refine (createTransfer_grows (fun account haccount category description type _ => ?_) h).rests
    refine Db.spares_of_pending fun hsettled => ?_
    obtain ⟨hfrom, hto⟩ := hspares hsettled
    rcases List.mem_pair.mp haccount with rfl | rfl
    · exact hfrom
    · exact hto
  | update org id body today =>
    obtain ⟨edited, h⟩ := map_fst_eq_ok.mp h
    obtain ⟨ids, h⟩ := updateTransaction_ok h
    obtain ⟨tx, htx, -, rfl, -, hcase⟩ := updateTransactionLocked_ok h
    obtain ⟨hrow, hpartner⟩ := hspares tx htx
    have hfirst := Db.rests_revise hrow
    rcases hcase with ⟨-, rfl⟩ | ⟨p, hpair, ⟨-, -, rfl⟩ | ⟨amount, hamount, rfl⟩⟩
    · exact hfirst
    · exact hfirst
    · have hp : tx.linkedTransactionId.bind (fun l => db.transaction? l org) = some p := by
        rw [hpair.link, Option.bind_some, hpair.partner_mem]
      have hedit := hpartner amount hamount p hp
      exact hfirst.trans (Db.rests_revise (hedit.imp_right fun ⟨h, h'⟩ =>
        ⟨h.rests hfirst, h'.rests hfirst⟩))
  | delete org id =>
    obtain ⟨tx, htx, -, rfl⟩ := deleteTransaction_ok h
    obtain ⟨hrow, hlinked⟩ := hspares tx htx
    exact Db.rests_deleteCascade hrow hlinked
  | bulkDelete org ids =>
    obtain ⟨_, h⟩ := map_fst_eq_ok.mp h
    rcases bulkDeleteTransactions_ok h with rfl | rfl
    · exact .refl _
    · exact Db.rests_remove hspares
  | pair org e i recategorize cat =>
    exact (pairExistingTransactions_grows h).rests
  | convert org source dst recategorize cat =>
    exact (convertAndCreateLeg_grows hwf hspares h).rests
  | unpair org id ec ic =>
    obtain ⟨_, _, e, i, -, -, -, -, -, -, -, -, -, rfl⟩ := unpairTransactions_ok h
    exact .of_eq rfl
  | promote org id body today =>
    obtain ⟨_, h⟩ := map_fst_eq_ok.mp h
    exact (promoteToRecurring_grows hwf h).rests
  | adjust org account body today =>
    obtain ⟨_, h⟩ := map_fst_eq_ok.mp h
    have hactive : db.Active account := hspares
    refine (adjustAccountBalance_grows (fun txBody hid _ => .inr ?_) h).rests
    show db.Active txBody.accountId
    rwa [hid]
  | executeImport org body user =>
    obtain ⟨_, h⟩ := map_fst_eq_ok.mp h
    exact (executeImport_grows (fun txBody _ _ hposts _ =>
      .inr (active_of_postsTo hspares hposts)) h).rests
  | generateDue org today =>
    exact (generateDueTransactions_grows hwf (fun r hr date _ => hspares r hr) h).rests
  | createRecurring org body => exact (createRecurring_grows hwf h).rests
  | updateRecurring org id body => exact (updateRecurring_grows hwf h).rests
  | stopRecurring org id today =>
    obtain ⟨r, -, rfl⟩ := stopRecurring_ok h
    refine Db.Rests.trans (.of_eq rfl) (Db.rests_remove fun t ht => .inl ?_)
    exact Transaction.settledAmount_of_pending (mem_pendingOfTemplate.mp ht).2.2.2.1
  | deleteRecurring org id today =>
    obtain ⟨hf, rfl⟩ := deleteRecurring_ok h
    refine Db.Rests.trans (Db.rests_remove fun t ht => .inl ?_) (.of_eq rfl)
    exact Transaction.settledAmount_of_pending (mem_pendingOfTemplate.mp ht).2.2.2.1
  | reconcile org batchId body =>
    obtain ⟨_, h⟩ := map_fst_eq_ok.mp h
    exact reconcile_rests hwf hspares h

end Request

/-! ### Requests on accounts -/

/-- A request of the ledger, or an update of an account. -/
inductive BookRequest
  | ledger (r : Request)
  | updateAccount (org id : ℕ) (body : AccountPut)

namespace BookRequest

variable {db db' : Db} {r : BookRequest}

/-- Answer a request. -/
def step (db : Db) : BookRequest → Except ServiceError Db
  | .ledger r => r.step db
  | .updateAccount org id body => Pfv.updateAccount db org id body

/-- A request moves no money on an inactive account. -/
def SparesInactive (db : Db) : BookRequest → Prop
  | .ledger r => r.SparesInactive db
  | .updateAccount .. => True

instance (db : Db) (r : BookRequest) : Decidable (r.SparesInactive db) := by
  cases r <;> unfold SparesInactive <;> infer_instance

/-- An update of an account keeps the ledger well formed. -/
theorem updateAccount_wellFormed {org id : ℕ} {body : AccountPut} (hwf : db.WellFormed)
    (h : Pfv.updateAccount db org id body = .ok db') : db'.WellFormed := by
  obtain ⟨acct, acct', hacct, hupdated, rfl⟩ := updateAccount_ok h
  have hget := Table.get?_self (Db.account?_eq_some.mp hacct).1
  have hkeeps : ∀ {k o : ℕ}, (∃ a, db.account? k o = some a) →
      ∃ a, Db.account? { db with accounts := db.accounts.put acct' } k o = some a := by
    rintro k o ⟨a, ha⟩
    obtain ⟨ha, horg⟩ := Db.account?_eq_some.mp ha
    by_cases hk : k = acct'.id
    · subst hk
      have hsame : acct = a := Option.some_inj.mp
        (hget.symm.trans (by rw [Account.row_id, ← hupdated.id, ha]))
      refine ⟨acct', Db.account?_eq_some.mpr ⟨?_, by rw [hupdated.org, hsame, horg]⟩⟩
      exact Table.get?_put_self (t := db.accounts) (b := a) ha
    · exact ⟨a, Db.account?_eq_some.mpr ⟨(Table.get?_put_of_ne _ hk).trans ha, horg⟩⟩
  refine ⟨fun ht => ?_, fun r hr => ?_⟩
  · have hrow := hwf.row ht
    exact ⟨hkeeps hrow.account, hrow.amount, hrow.type, hrow.batch⟩
  · have hrow := hwf.template r hr
    exact ⟨hkeeps hrow.account, hrow.amount⟩

theorem step_wellFormed (hwf : db.WellFormed) (h : step db r = .ok db') : db'.WellFormed := by
  cases r with
  | ledger r => exact Request.step_wellFormed hwf h
  | updateAccount org id body => exact updateAccount_wellFormed hwf h

/-- An account is deactivated only at a balance of zero, and a request that spares the inactive
accounts leaves them as they are. -/
theorem step_inactiveEmpty (hwf : db.WellFormed) (hempty : db.InactiveEmpty)
    (hspares : r.SparesInactive db) (h : step db r = .ok db') : db'.InactiveEmpty := by
  cases r with
  | ledger r => exact (Request.step_rests hwf hspares h).inactiveEmpty hempty
  | updateAccount org id body =>
    obtain ⟨acct, acct', hacct, hupdated, rfl⟩ := updateAccount_ok h
    intro a ha hinactive
    obtain ⟨b, hb, rfl⟩ := List.mem_map.mp ha
    split_ifs at hinactive ⊢
    · rw [hupdated.balance]
      rcases hupdated.inactive hinactive with hbefore | hzero
      · exact hempty acct (Table.get?_mem (Db.account?_eq_some.mp hacct).1) hbefore
      · exact hzero
    · exact hempty b hb hinactive

end BookRequest

/-! ### Runs -/

/-- No money is left on an inactive account in a run whose requests move none there. -/
theorem inactiveEmpty_of_run {db : Db} (hseeded : db.Seeded) {rs : List BookRequest}
    (hspares : Admits BookRequest.SparesInactive BookRequest.step db rs) :
    (serveAll BookRequest.step db rs).InactiveEmpty := by
  have hempty : db.InactiveEmpty := by
    intro a ha
    rw [hseeded.accounts] at ha
    exact absurd ha List.not_mem_nil
  exact (serveAll_invariant (I := fun db : Db => db.WellFormed ∧ db.InactiveEmpty)
    (fun _ _ _ ⟨hwf, hempty⟩ hok h => ⟨BookRequest.step_wellFormed hwf h,
      BookRequest.step_inactiveEmpty hwf hempty hok h⟩) rs ⟨hseeded.wellFormed, hempty⟩ hspares).2

theorem noOpeningBalance_lower : ∀ b ∈ (none : Option ℤ), -1000000000000 < b := by simp

theorem noOpeningBalance_upper : ∀ b ∈ (none : Option ℤ), b < 1000000000000 := by simp

/-- The deactivation of the account with a given id. -/
def sampleDeactivation (id : ℕ) : BookRequest :=
  .updateAccount 1 id
    (.plain { isActive := some false, lower := noOpeningBalance_lower
              upper := noOpeningBalance_upper })

/-- An income of 10.00 is transferred to another account before the first one is deactivated, and a
row is posted to the other account. -/
def sampleEmptied : List BookRequest :=
  [.ledger (sampleAccount "Checking"), .ledger (sampleAccount "Savings"),
    .ledger (sampleCreate 1 .income .settled), .ledger sampleTransfer, sampleDeactivation 1,
    .ledger (sampleCreate 2 .expense .settled)]

/-- The emptied account stays at zero. -/
theorem inactiveEmpty_of_sampleEmptied :
    (serveAll BookRequest.step sampleDb sampleEmptied).InactiveEmpty :=
  inactiveEmpty_of_run sampleDb_seeded (by decide +kernel)

/-- An income and an expense of 10.00 are on the account when it is deactivated, and the expense is
deleted afterwards. -/
def sampleDeactivated : List BookRequest :=
  [.ledger (sampleAccount "Checking"), .ledger (sampleCreate 1 .income .settled),
    .ledger (sampleCreate 1 .expense .settled), sampleDeactivation 1, .ledger (.delete 1 2)]

/-- The inactive account has a balance of 10.00 after the deletion. -/
theorem not_inactiveEmpty_of_sampleDeactivated : sampleDb.Seeded ∧
    ¬(serveAll BookRequest.step sampleDb sampleDeactivated).InactiveEmpty :=
  ⟨sampleDb_seeded, by decide +kernel⟩

end Pfv
