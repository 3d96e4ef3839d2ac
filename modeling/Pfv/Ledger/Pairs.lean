import Pfv.Ledger.Links

/-!
# Transfer pairs

Without reconciliation requests every link of the ledger belongs to a transfer pair: an expense and
an income row of equal amounts, on different accounts of the same organisation and currency, that
point at each other, neither of them a manual adjustment.

## Main definitions

* `Db.TransferLegs t p`: two rows may be the legs of a transfer.
* `Db.Paired`: the links are a pairing, and linked rows are the legs of a transfer.

## Main results

* `Request.step_paired`: every request but the reconcile request keeps the pairs.
* `transferLegs_of_run`: the pair invariant of every run without reconcile requests.
-/

namespace Pfv

/-- Two versions of a row that agree on what matters for a transfer leg. -/
structure Transaction.SameLeg (t t' : Transaction) : Prop where
  org_eq : t'.orgId = t.orgId
  type_eq : t'.type = t.type
  amount_eq : t'.amount = t.amount
  account_eq : t'.accountId = t.accountId
  manual_eq : t'.isManualAdjustment = t.isManualAdjustment

theorem Transaction.SameEntry.sameLeg {t t' : Transaction} (h : t.SameEntry t') : t.SameLeg t' := by
  rw [h]
  exact ⟨rfl, rfl, rfl, rfl, rfl⟩

theorem Transaction.sameLeg_refl (t : Transaction) : t.SameLeg t := ⟨rfl, rfl, rfl, rfl, rfl⟩

namespace Db

variable {db db' : Db}

/-- Two rows of an organisation that may be the legs of a transfer. -/
structure TransferLegs (db : Db) (t p : Transaction) : Prop where
  org_eq : p.orgId = t.orgId
  types : t.type = .expense ∧ p.type = .income ∨ t.type = .income ∧ p.type = .expense
  amount_eq : p.amount = t.amount
  account_ne : p.accountId ≠ t.accountId
  currency : ∃ c, db.currencyOf t.accountId = some c ∧ db.currencyOf p.accountId = some c
  manual : t.isManualAdjustment = false ∧ p.isManualAdjustment = false

theorem TransferLegs.symm {t p : Transaction} (h : db.TransferLegs t p) : db.TransferLegs p t where
  org_eq := h.org_eq.symm
  types := h.types.symm.imp And.symm And.symm
  amount_eq := h.amount_eq.symm
  account_ne := h.account_ne.symm
  currency := by
    obtain ⟨c, ht, hp⟩ := h.currency
    exact ⟨c, hp, ht⟩
  manual := h.manual.symm

/-- The currency of an account never changes. -/
theorem KeepsAccounts.currencyOf_eq_some (h : db.KeepsAccounts db') {a : ℕ} {c : String}
    (hc : db.currencyOf a = some c) : db'.currencyOf a = some c := by
  obtain ⟨acct, hacct, -⟩ := Option.map_eq_some_iff.mp hc
  rw [h.currencyOf (by simp [hacct]), hc]

theorem TransferLegs.congr {t p t' p' : Transaction} (h : db.TransferLegs t p)
    (hacc : db.KeepsAccounts db') (ht : t.SameLeg t') (hp : p.SameLeg p') :
    db'.TransferLegs t' p' where
  org_eq := by rw [hp.org_eq, ht.org_eq, h.org_eq]
  types := by
    rw [ht.type_eq, hp.type_eq]
    exact h.types
  amount_eq := by rw [hp.amount_eq, ht.amount_eq, h.amount_eq]
  account_ne := by
    rw [hp.account_eq, ht.account_eq]
    exact h.account_ne
  currency := by
    obtain ⟨c, hc, hc'⟩ := h.currency
    rw [ht.account_eq, hp.account_eq]
    exact ⟨c, hacc.currencyOf_eq_some hc, hacc.currencyOf_eq_some hc'⟩
  manual := by
    rw [ht.manual_eq, hp.manual_eq]
    exact h.manual

/-- The links are a pairing, and linked rows are the legs of a transfer. -/
structure Paired (db : Db) : Prop where
  pairing : Pairing db.linkOf
  legs : ∀ {i j t p}, db.transactions.get? i = some t → t.linkedTransactionId = some j →
    db.transactions.get? j = some p → db.TransferLegs t p

/-- The partner of a linked row. -/
theorem Paired.partner (h : db.Paired) {i j : ℕ} {t : Transaction}
    (ht : db.transactions.get? i = some t) (hlink : t.linkedTransactionId = some j) :
    ∃ p, db.transactions.get? j = some p ∧ p.linkedTransactionId = some i ∧
      db.TransferLegs t p := by
  obtain ⟨p, hp, hback⟩ := linkOf_eq_some.mp (h.pairing i j (linkOf_eq_some.mpr ⟨t, ht, hlink⟩))
  exact ⟨p, hp, hback, h.legs ht hlink hp⟩

/-- A change that leaves no linked rows but old ones, with their old links, keeps the pairs. -/
theorem Paired.of_linked (h : db.Paired) (hacc : db.KeepsAccounts db')
    (hpair : Pairing db'.linkOf)
    (hold : ∀ i t' l, db'.transactions.get? i = some t' → t'.linkedTransactionId = some l →
      ∃ t, db.transactions.get? i = some t ∧ t.linkedTransactionId = some l ∧ t.SameLeg t') :
    db'.Paired where
  pairing := hpair
  legs := by
    intro i j t' p' ht' hlink hp'
    obtain ⟨t, ht, hl, hsame⟩ := hold i t' j ht' hlink
    obtain ⟨q, hq, hback⟩ := linkOf_eq_some.mp (hpair i j (linkOf_eq_some.mpr ⟨t', ht', hlink⟩))
    rw [hp', Option.some_inj] at hq
    obtain ⟨p, hp, -, hsame'⟩ := hold j p' i hp' (hq ▸ hback)
    exact (h.legs ht hl hp).congr hacc hsame hsame'

/-! ### What keeps the pairs -/

/-- Two linkable rows of a well-formed ledger are the legs of a transfer. -/
theorem Linkable.transferLegs (hwf : db.WellFormed) {e i : Transaction} (h : db.Linkable e i) :
    db.TransferLegs e i where
  org_eq := h.org_eq.symm
  types := .inl ⟨h.expense_type, h.income_type⟩
  amount_eq := by
    have := h.amount_eq
    rwa [abs_of_nonneg (hwf.row h.expense_mem).amount, abs_of_nonneg (hwf.row h.income_mem).amount,
      eq_comm] at this
  account_ne := h.account_ne.symm
  currency := by
    obtain ⟨acct, hacct⟩ := (hwf.row h.expense_mem).account
    have hc : db.currencyOf e.accountId = some acct.currency := by
      rw [currencyOf, (account?_eq_some.mp hacct).1, Option.map_some]
    exact ⟨_, hc, h.currency_eq ▸ hc⟩
  manual := ⟨h.expense_manual, h.income_manual⟩

/-- Linking two linkable rows adds a pair. -/
theorem Paired.linkRows (h : db.Paired) (hwf : db.WellFormed) {e i : Transaction}
    (hlink : db.Linkable e i) (cat : Option ℕ) : (db.linkRows e i cat).Paired where
  pairing := pairing_linkRows h.pairing hlink cat
  legs := by
    intro j k t p ht hl hp
    have hlegs : (db.linkRows e i cat).TransferLegs _ _ :=
      (hlink.transferLegs hwf).congr (.of_eq rfl)
      (sameEntry_linkTo e i.id cat).sameLeg (sameEntry_linkTo i e.id cat).sameLeg
    rw [get?_linkRows hlink] at ht hp
    split_ifs at ht with hje hji
    · rw [← Option.some_inj.mp ht] at hl ⊢
      obtain rfl : i.id = k := Option.some_inj.mp hl
      rw [if_neg hlink.id_ne.symm, if_pos rfl, Option.some_inj] at hp
      exact hp ▸ hlegs
    · rw [← Option.some_inj.mp ht] at hl ⊢
      obtain rfl : e.id = k := Option.some_inj.mp hl
      rw [if_pos rfl, Option.some_inj] at hp
      exact hp ▸ hlegs.symm
    · -- An old row is linked to an old row, which is neither of the two.
      have hback := h.pairing j k (linkOf_eq_some.mpr ⟨t, ht, hl⟩)
      have hke : k ≠ e.id := by
        rintro rfl
        rw [linkOf_of_get? hlink.expense_mem, hlink.expense_unlinked] at hback
        exact absurd hback (by simp)
      have hki : k ≠ i.id := by
        rintro rfl
        rw [linkOf_of_get? hlink.income_mem, hlink.income_unlinked] at hback
        exact absurd hback (by simp)
      rw [if_neg hke, if_neg hki] at hp
      exact (h.legs ht hl hp).congr (.of_eq rfl) t.sameLeg_refl p.sameLeg_refl

/-- Adding to the ledger keeps the pairs. -/
theorem Grows.paired {P : Transaction → Prop} (h : Grows P db db') (hwf : db.WellFormed)
    (hpaired : db.Paired) : db'.Paired := by
  have hacc := h.keepsAccounts
  have hpair := h.pairing hpaired.pairing
  cases h with
  | openAccount | addCategory | setTemplates =>
    exact hpaired.of_linked hacc hpair fun _ t _ ht hl => ⟨t, ht, hl, t.sameLeg_refl⟩
  | post u hrow hnew =>
    refine hpaired.of_linked hacc hpair fun i t l ht hl => ?_
    rw [get?_post] at ht
    split_ifs at ht
    · rw [← Option.some_inj.mp ht] at hl
      exact absurd (hnew.link.symm.trans hl) (by simp)
    · exact ⟨t, ht, hl, t.sameLeg_refl⟩
  | link e i cat h => exact hpaired.linkRows hwf h cat
  | retemplate f hf h =>
    refine hpaired.of_linked hacc hpair fun i t' l ht' hl => ?_
    rw [Table.get?_mapRows, Option.map_eq_some_iff] at ht'
    obtain ⟨t, ht, rfl⟩ := ht'
    have hft := h t (Table.get?_mem ht)
    exact ⟨t, ht, by rw [hft] at hl; exact hl, by rw [hft]; exact ⟨rfl, rfl, rfl, rfl, rfl⟩⟩
  | openBatch ids org b hf =>
    refine hpaired.of_linked hacc hpair fun i t' l ht' hl => ?_
    rw [Table.get?_mapRows, Option.map_eq_some_iff] at ht'
    obtain ⟨t, ht, rfl⟩ := ht'
    rw [assignBatch_eq] at hl ⊢
    exact ⟨t, ht, hl, ⟨rfl, rfl, rfl, rfl, rfl⟩⟩

theorem GrowsMany.paired {P : Transaction → Prop} (h : db.GrowsMany P db') (hwf : db.WellFormed)
    (hpaired : db.Paired) : db'.Paired :=
  (h.induct (I := fun d => d.WellFormed ∧ d.Paired)
    (fun hI hgrow => ⟨hgrow.wellFormed hI.1, hgrow.paired hI.1 hI.2⟩) ⟨hwf, hpaired⟩).2

/-- Deleting rows forgets whole pairs or the links to the deleted legs. -/
theorem Paired.of_deleteTransactions (h : db.Paired) {ids : List ℕ}
    (hacc : db.KeepsAccounts db')
    (hrows : db'.transactions = (db.deleteTransactions ids).transactions) : db'.Paired := by
  refine h.of_linked hacc ?_ fun i t' l ht' hl => ?_
  · rw [linkOf_congr hrows]
    exact pairing_deleteTransactions h.pairing ids
  · rw [hrows] at ht'
    obtain ⟨-, t, ht, rfl⟩ := get?_deleteTransactions_eq_some.mp ht'
    refine ⟨t, ht, (unlinkFrom_link_eq_some.mp hl).1, ?_⟩
    rw [unlinkFrom_eq]
    exact ⟨rfl, rfl, rfl, rfl, rfl⟩

theorem Paired.remove (h : db.Paired) (rows : List Transaction) : (db.remove rows).Paired :=
  h.of_deleteTransactions (keepsAccounts_remove db rows) (remove_transactions db rows)

theorem Paired.deleteCascade (h : db.Paired) (tx : Transaction) (linkedTx : Option Transaction) :
    (db.deleteCascade tx linkedTx).Paired :=
  h.of_deleteTransactions (keepsAccounts_deleteCascade db tx linkedTx)
    (deleteCascade_transactions db tx linkedTx)

/-- Breaking a pair forgets its two links. -/
theorem Paired.unlink (h : db.Paired) {e i : Transaction}
    (he : db.transactions.get? e.id = some e) (hi : db.transactions.get? i.id = some i)
    (hlink : db.linkOf e.id = some i.id) (hne : e.id ≠ i.id) (ec ic : ℕ) :
    ((db.putTransaction (e.unlink ec)).putTransaction (i.unlink ic)).Paired := by
  refine h.of_linked (.of_eq rfl) (pairing_unlink h.pairing he hi hlink hne ec ic) ?_
  intro j t l ht hl
  have heid : (e.unlink ec).id = e.id := rfl
  have hiid : (i.unlink ic).id = i.id := rfl
  rw [get?_putTransaction, get?_putTransaction, heid, hiid] at ht
  have hunlinked : ∀ {u : Transaction} {o : Option Transaction},
      u.linkedTransactionId = none → o.map (fun _ => u) = some t → False := by
    intro u o hu ho
    obtain ⟨-, -, rfl⟩ := Option.map_eq_some_iff.mp ho
    rw [hu] at hl
    exact absurd hl (by simp)
  split_ifs at ht
  · exact (hunlinked rfl ht).elim
  · exact (hunlinked rfl ht).elim
  · exact (hunlinked rfl ht).elim
  · exact ⟨t, ht, hl, t.sameLeg_refl⟩

/-- Replacing both legs of a pair by the legs of a transfer keeps the pairs. -/
theorem Paired.replace_pair (h : db.Paired) (hacc : db.KeepsAccounts db')
    (hlinks : db'.linkOf = db.linkOf) {a b : ℕ} {t' p' : Transaction} (hab : db.linkOf a = some b)
    (ha : db'.transactions.get? a = some t') (hb : db'.transactions.get? b = some p')
    (hlegs : db'.TransferLegs t' p')
    (hother : ∀ i, i ≠ a → i ≠ b → db'.transactions.get? i = db.transactions.get? i) :
    db'.Paired where
  pairing := hlinks ▸ h.pairing
  legs := by
    intro i j t p ht hl hp
    have hij : db.linkOf i = some j := hlinks ▸ linkOf_eq_some.mpr ⟨t, ht, hl⟩
    have hba := h.pairing a b hab
    by_cases hia : i = a
    · subst hia
      obtain rfl : b = j := by rwa [hab, Option.some_inj] at hij
      rw [ha, Option.some_inj] at ht
      rw [hb, Option.some_inj] at hp
      exact ht ▸ hp ▸ hlegs
    by_cases hib : i = b
    · subst hib
      obtain rfl : a = j := by rwa [hba, Option.some_inj] at hij
      rw [hb, Option.some_inj] at ht
      rw [ha, Option.some_inj] at hp
      exact ht ▸ hp ▸ hlegs.symm
    · have hja : j ≠ a := by
        rintro rfl
        exact hib (h.pairing.eq_of_link_eq hij hba)
      have hjb : j ≠ b := by
        rintro rfl
        exact hia (h.pairing.eq_of_link_eq hij hab)
      rw [hother i hia hib] at ht
      rw [hother j hja hjb] at hp
      exact (h.legs ht hl hp).congr hacc t.sameLeg_refl p.sameLeg_refl

/-- Rewriting an unlinked row keeps the pairs. -/
theorem Paired.revise_unlinked (h : db.Paired) {t t' : Transaction}
    (ht : db.transactions.get? t.id = some t) (hunlinked : t.linkedTransactionId = none)
    (hid : t'.id = t.id) (hlink : t'.linkedTransactionId = t.linkedTransactionId) :
    (db.revise t t').Paired := by
  refine h.of_linked (keepsAccounts_revise db t t') ?_ fun i u l hu hl => ?_
  · rw [linkOf_revise ht hid hlink]
    exact h.pairing
  · rw [get?_revise] at hu
    split_ifs at hu
    · obtain ⟨-, -, rfl⟩ := Option.map_eq_some_iff.mp hu
      exact absurd ((hlink.trans hunlinked).symm.trans hl) (by simp)
    · exact ⟨u, hu, hl, u.sameLeg_refl⟩

end Db

/-! ### Requests -/

section

variable {db db' : Db} {org id : ℕ} {body : TransactionUpdate} {today : Date}

/-- The legs of a transfer stay the legs of a transfer under a guarded edit, when their amounts stay
equal. -/
theorem EditedPair.transferLegs {tx p p' : Transaction}
    (hpair : EditedPair db org tx (editTransaction tx body today) p) (hpaired : db.Paired)
    (htx : db.transactions.get? tx.id = some tx)
    (hp' : p' = { p with amount := (editTransaction tx body today).amount }) :
    db.TransferLegs (editTransaction tx body today) p' := by
  have hp := Db.transaction?_self hpair.partner_mem
  have hlegs := hpaired.legs htx hpair.link hp
  obtain ⟨c, hc, hc'⟩ := hlegs.currency
  subst hp'
  refine ⟨hlegs.org_eq, ?_, rfl, hpair.account_ne.symm, ⟨c, ?_, hc'⟩, hlegs.manual⟩
  · rw [hpair.type_eq]
    exact hlegs.types
  · rcases hpair.currency with hsame | hcur
    · rw [hsame, hc]
    · rw [hcur, hc']

/-- An update keeps the pairs. -/
theorem updateTransactionLocked_paired {ids : List ℕ} {edited : Transaction}
    (hpaired : db.Paired)
    (h : updateTransactionLocked db org id body today ids = .ok (db', edited)) : db'.Paired := by
  obtain ⟨tx, htx, -, rfl, -, hcase⟩ := updateTransactionLocked_ok h
  have hget := Db.transaction?_self htx
  have hlinks : (db.revise tx (editTransaction tx body today)).linkOf = db.linkOf :=
    Db.linkOf_revise hget rfl rfl
  have hkeeps := Db.keepsAccounts_revise db tx (editTransaction tx body today)
  have hrow : (db.revise tx (editTransaction tx body today)).transactions.get? tx.id =
      some (editTransaction tx body today) := by
    rw [Db.get?_revise, hget]
    exact if_pos rfl
  rcases hcase with ⟨hunlinked, rfl⟩ | ⟨p, hpair, hcase⟩
  · exact hpaired.revise_unlinked hget hunlinked rfl rfl
  have hp := Db.transaction?_self hpair.partner_mem
  have hab : db.linkOf tx.id = some p.id := Db.linkOf_eq_some.mpr ⟨tx, hget, hpair.link⟩
  have hp₁ : (db.revise tx (editTransaction tx body today)).transactions.get? p.id = some p := by
    rw [Db.get?_revise]
    exact (if_neg hpair.id_ne).trans hp
  rcases hcase with ⟨hbody, -, rfl⟩ | ⟨amount, hbody, rfl⟩
  · -- The amount did not change, so the partner still has it.
    have hamount : p = { p with amount := (editTransaction tx body today).amount } := by
      have : (editTransaction tx body today).amount = p.amount := by
        rw [(hpaired.legs hget hpair.link hp).amount_eq]
        simp [editTransaction, hbody]
      rw [this]
    refine hpaired.replace_pair hkeeps hlinks hab hrow hp₁
      ((hpair.transferLegs hpaired hget hamount).congr hkeeps (Transaction.sameLeg_refl _)
        (Transaction.sameLeg_refl _)) fun i hi _ => ?_
    rw [Db.get?_revise]
    exact if_neg hi
  · have hamount : { p with amount := amount.cents } =
        { p with amount := (editTransaction tx body today).amount } := by
      simp [editTransaction, hbody]
    have hkeeps' := hkeeps.trans (Db.keepsAccounts_revise _ p { p with amount := amount.cents })
    have hlinks' : ((db.revise tx (editTransaction tx body today)).revise p
        { p with amount := amount.cents }).linkOf = db.linkOf :=
      (Db.linkOf_revise hp₁ (by rfl) (by rfl)).trans hlinks
    refine hpaired.replace_pair hkeeps' hlinks' hab ?_ ?_
      ((hpair.transferLegs hpaired hget hamount).congr hkeeps' (Transaction.sameLeg_refl _)
        (Transaction.sameLeg_refl _)) fun i hi hip => ?_
    · rw [Db.get?_revise]
      exact (if_neg hpair.id_ne.symm).trans hrow
    · rw [Db.get?_revise, hp₁]
      exact if_pos rfl
    · rw [Db.get?_revise]
      refine (if_neg hip).trans ?_
      rw [Db.get?_revise]
      exact if_neg hi

end

namespace Request

variable {db db' : Db} {r : Request}

/-- Every request but the reconcile request. -/
def LeavesReconciliation : Request → Prop
  | .reconcile .. => False
  | _ => True

/-- Every request but the reconcile request keeps the pairs. -/
theorem step_paired (hwf : db.WellFormed) (hpaired : db.Paired) (hleaves : r.LeavesReconciliation)
    (h : step db r = .ok db') : db'.Paired := by
  by_cases hadds : r.Adds
  · exact (step_grows hwf hadds h).paired hwf hpaired
  cases r with
  | update org id body today =>
    obtain ⟨edited, h⟩ := map_fst_eq_ok.mp h
    obtain ⟨ids, h⟩ := updateTransaction_ok h
    exact updateTransactionLocked_paired hpaired h
  | delete org id =>
    obtain ⟨tx, -, -, rfl⟩ := deleteTransaction_ok h
    exact hpaired.deleteCascade _ _
  | bulkDelete org ids =>
    obtain ⟨_, h⟩ := map_fst_eq_ok.mp h
    rcases bulkDeleteTransactions_ok h with rfl | rfl
    · exact hpaired
    · exact hpaired.remove _
  | unpair org id ec ic =>
    obtain ⟨tx, linked, e, i, htx, hlinked, he, hi, -, -, het, hit, hids, rfl⟩ :=
      unpairTransactions_ok h
    have hne : e.id ≠ i.id := by
      intro hid
      rw [Table.get?_inj he hi hid, hit] at het
      exact absurd het (by decide)
    have hlink : db.linkOf id = some linked :=
      Db.linkOf_eq_some.mpr ⟨tx, (Db.transaction?_eq_some.mp htx).1, hlinked⟩
    refine hpaired.unlink he hi ?_ hne ec ic
    rcases hids with ⟨hei, hii⟩ | ⟨hei, hii⟩
    · rw [hei, hii, hlink]
    · rw [hei, hii, hpaired.pairing id linked hlink]
  | stopRecurring org id today =>
    obtain ⟨db₁, hgrow, -, hgrow'⟩ := stopRecurring_removes (P := fun _ => True) hwf h
    have hwf₁ := hgrow.wellFormed hwf
    exact hgrow'.paired (hwf₁.remove _) ((hgrow.paired hwf hpaired).remove _)
  | deleteRecurring org id today =>
    obtain ⟨db₁, hgrow, -, hgrow'⟩ := deleteRecurring_removes (P := fun _ => True) hwf h
    have hwf₁ := hgrow.wellFormed hwf
    exact hgrow'.paired (hwf₁.remove _) ((hgrow.paired hwf hpaired).remove _)
  | reconcile => exact hleaves.elim
  | _ => exact absurd trivial hadds

end Request

theorem Db.Seeded.get?_transactions {db : Db} (h : db.Seeded) (i : ℕ) :
    db.transactions.get? i = none := by
  simp [Table.get?, h.transactions]

theorem Db.Seeded.paired {db : Db} (h : db.Seeded) : db.Paired where
  pairing i j hij := by
    rw [linkOf_eq_none_of_get? (h.get?_transactions i)] at hij
    exact absurd hij (by simp)
  legs ht := by
    rw [h.get?_transactions] at ht
    exact absurd ht (by simp)

/-- Every database reached without reconcile requests has its links paired. -/
theorem Db.ReachableBy.paired {db : Db} (h : db.ReachableBy Request.LeavesReconciliation) :
    db.Paired :=
  h.induct (fun _ hs => hs.paired) fun _ _ _ hwf hpaired hr hstep =>
    Request.step_paired hwf hpaired hr hstep

/-- Transfer-pair invariant: in every run without reconcile requests, the partner of a linked row
exists in the same organisation and points back, one of the two is an expense and the other an
income, their amounts are equal, their accounts are different and of one currency, and neither is a
manual adjustment. -/
theorem transferLegs_of_run {db : Db} (hseeded : db.Seeded) {rs : List Request}
    (hleaves : ∀ r ∈ rs, r.LeavesReconciliation) {i l : ℕ} {t : Transaction}
    (ht : (serveAll Request.step db rs).transactions.get? i = some t)
    (hlink : t.linkedTransactionId = some l) :
    ∃ p, (serveAll Request.step db rs).transactions.get? l = some p ∧
      p.linkedTransactionId = some i ∧ (serveAll Request.step db rs).TransferLegs t p :=
  Db.Paired.partner (Db.ReachableBy.paired ⟨db, rs, hseeded, hleaves, rfl⟩) ht hlink

/-- A transfer created by a request, and a pair made of two imported rows on two accounts. -/
def samplePairRun : List Request :=
  [sampleAccount "Checking", sampleAccount "Savings", sampleTransfer, sampleImport 1 [.expense],
    sampleImport 2 [.income], .pair 1 3 4 true none]

/-- The invariant on a sample run: the pair of the imported rows. -/
theorem transferLegs_of_samplePairRun :
    ∃ t p, (serveAll Request.step sampleDb samplePairRun).transactions.get? 4 = some p ∧
      p.linkedTransactionId = some 3 ∧
      (serveAll Request.step sampleDb samplePairRun).TransferLegs t p := by
  have hleaves : ∀ r ∈ samplePairRun, r.LeavesReconciliation := by
    simp [samplePairRun, sampleAccount, sampleTransfer, sampleImport,
      Request.LeavesReconciliation]
  have hlink : (serveAll Request.step sampleDb samplePairRun).linkOf 3 = some 4 := by
    decide +kernel
  obtain ⟨t, ht, hl⟩ := Db.linkOf_eq_some.mp hlink
  obtain ⟨p, hp⟩ := transferLegs_of_run sampleDb_seeded hleaves ht hl
  exact ⟨t, p, hp⟩

end Pfv
