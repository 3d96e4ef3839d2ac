import Pfv.Ledger.Locality

/-!
# Organisations are isolated

All organisations share the tables of the ledger. In every reachable ledger the references of every
row stay in its organisation, requests served for other organisations leave the rows of an
organisation as they are, and what an organisation sees of a run of requests of all organisations
is a run of its own requests in a ledger of its own. The only trace of the others are the ids they
have taken from the counters of the tables.

## Main definitions

* `Db.SkipsIds db db'`: the same rows, with larger counters.
* `Db.Alone o db rs db'`: a run of the requests of one organisation in a ledger of its own, in which
  ids may be skipped.

## Main results

* `tenanted_of_run`: references stay in their organisation.
* `view_eq_of_requests`: the requests of others leave the rows of an organisation.
* `alone_of_run`: what an organisation sees of a run is a run of its own requests.
-/

namespace Pfv

theorem Db.Seeded.tenanted {db : Db} (h : db.Seeded) : db.Tenanted where
  account a ha := by simp [h.accounts] at ha
  row t ht := by simp [h.transactions] at ht
  template r hr := by simp [h.recurring] at hr
  batch b hb := by simp [h.importBatches] at hb

theorem Db.ReachableBy.tenanted {ok : Request → Prop} {db : Db} (h : db.ReachableBy ok) :
    db.Tenanted :=
  h.induct (fun _ hs => hs.tenanted)
    fun _ _ _ hwf hdb _ hstep => (Request.step_writes hdb hwf hstep).tenanted hdb

/-- In every reachable ledger the account, the category, the link, the template and the batch of a
row, and the references of the other tables, lead to rows of the same organisation. -/
theorem tenanted_of_run {ok : Request → Prop} {db : Db} (h : db.ReachableBy ok) : db.Tenanted :=
  h.tenanted

/-! ### A sample of two organisations -/

theorem sampleOrgs_types_nodup :
    (([⟨1, 1, none⟩, ⟨2, 2, none⟩] : List AccountType).map Row.id).Nodup := by decide

theorem sampleOrgs_types_fresh :
    ∀ a ∈ ([⟨1, 1, none⟩, ⟨2, 2, none⟩] : List AccountType), Row.id a < 3 := by decide

/-- One category for income and expense in each of two organisations. -/
def sampleCategories : List Category :=
  [{ id := 1, orgId := 1, name := "General" }, { id := 2, orgId := 2, name := "General" }]

theorem sampleCategories_nodup : (sampleCategories.map Row.id).Nodup := by decide

theorem sampleCategories_fresh : ∀ c ∈ sampleCategories, Row.id c < 3 := by decide

/-- Two organisations with an account type and a category each. -/
def sampleOrgs : Db where
  accountTypes := ⟨[⟨1, 1, none⟩, ⟨2, 2, none⟩], 3, sampleOrgs_types_nodup, sampleOrgs_types_fresh⟩
  accounts := .empty
  categories := ⟨sampleCategories, 3, sampleCategories_nodup, sampleCategories_fresh⟩
  transactions := .empty
  recurring := .empty
  importBatches := .empty

theorem sampleZero_lower : (-10 ^ 12 : ℤ) < 0 := by norm_num

theorem sampleZero_upper : (0 : ℤ) < 10 ^ 12 := by norm_num

/-- An organisation opens its account. -/
def sampleOpen (org : ℕ) : Request :=
  .createAccount org
    { name := "Cash", accountTypeId := org, closeDay_range := noCloseDay_range
      lower := sampleZero_lower, upper := sampleZero_upper } sampleDate

/-- An organisation stores a row on its account. -/
def sampleSpend (org : ℕ) : Request :=
  .create org
    { accountId := org, categoryId := org, description := sampleDescription
      amount := sampleAmount, type := .expense, date := sampleDate
      settledDate_le := noSettledDate_le } false

/-- Both organisations have an account with one row. -/
def sampleShared : Db :=
  serveAll Request.step sampleOrgs [sampleOpen 1, sampleOpen 2, sampleSpend 1, sampleSpend 2]

theorem sampleShared_reachable : sampleShared.ReachableBy fun _ => True :=
  ⟨sampleOrgs, _, ⟨rfl, rfl, rfl, rfl⟩, fun _ _ => trivial, rfl⟩

theorem sampleShared_tenanted : sampleShared.Tenanted :=
  tenanted_of_run sampleShared_reachable

/-- The first organisation stores and deletes rows, the second one stores a row in between. -/
def sampleMixed : List Request := [sampleSpend 1, sampleSpend 2, .bulkDelete 1 [1, 2, 3]]

/-- The deletion spares the rows of the second organisation. -/
example : ((serveAll Request.step sampleShared sampleMixed).only 2).transactions.rows.map (·.id) =
    [2, 4] := by decide

/-! ### Requests of others -/

/-- Requests of other organisations leave the rows of an organisation. -/
theorem view_eq_of_requests {db : Db} {o : ℕ} (hwf : db.WellFormed) (hdb : db.Tenanted)
    {rs : List Request} (hrs : ∀ r ∈ rs, r.org ≠ o) :
    (serveAll Request.step db rs).view o = db.view o := by
  have hadmits : Admits (fun _ r => Request.org r ≠ o) Request.step db rs :=
    admits_of_forall (fun _ _ h => h) rs db hrs
  refine serveAll_rel (I := fun db => db.WellFormed ∧ db.Tenanted)
    (P := fun s s' : Db => s'.view o = s.view o) (fun _ => rfl) (by
      intro s t u h h'
      exact h'.trans h) ?_ rs ⟨hwf, hdb⟩ hadmits
  intro s r s' ⟨hs, hs'⟩ hr hstep
  have hwrites := Request.step_writes hs' hs hstep
  exact ⟨⟨Request.step_wellFormed hs hstep, hwrites.tenanted hs'⟩, hwrites.view_eq hs' hr⟩

/-! ### A ledger of one organisation -/

/-- A table with the same rows and a counter that may be larger. -/
def Table.SkipsIds {α : Type} [Row α] (t t' : Table α) : Prop :=
  t'.rows = t.rows ∧ t.next ≤ t'.next

namespace Db

/-- A ledger with the same rows, whose next ids may be larger. -/
structure SkipsIds (db db' : Db) : Prop where
  accountTypes : db.accountTypes.SkipsIds db'.accountTypes
  accounts : db.accounts.SkipsIds db'.accounts
  categories : db.categories.SkipsIds db'.categories
  transactions : db.transactions.SkipsIds db'.transactions
  recurring : db.recurring.SkipsIds db'.recurring
  importBatches : db.importBatches.SkipsIds db'.importBatches

/-- The counters never go back. -/
structure CountersLe (db db' : Db) : Prop where
  accountTypes : db.accountTypes.next ≤ db'.accountTypes.next
  accounts : db.accounts.next ≤ db'.accounts.next
  categories : db.categories.next ≤ db'.categories.next
  transactions : db.transactions.next ≤ db'.transactions.next
  recurring : db.recurring.next ≤ db'.recurring.next
  importBatches : db.importBatches.next ≤ db'.importBatches.next

theorem CountersLe.refl (db : Db) : db.CountersLe db :=
  ⟨le_rfl, le_rfl, le_rfl, le_rfl, le_rfl, le_rfl⟩

theorem CountersLe.trans {db db' db'' : Db} (h : db.CountersLe db') (h' : db'.CountersLe db'') :
    db.CountersLe db'' :=
  ⟨h.1.trans h'.1, h.2.trans h'.2, h.3.trans h'.3, h.4.trans h'.4, h.5.trans h'.5, h.6.trans h'.6⟩

theorem Writes.countersLe {org : ℕ} {db db' : Db} (h : Writes org db db') : db.CountersLe db' := by
  cases h with
  | openAccount => exact { CountersLe.refl db with accounts := Nat.le_succ _ }
  | addCategory => exact { CountersLe.refl db with categories := Nat.le_succ _ }
  | addTemplate => exact { CountersLe.refl db with recurring := Nat.le_succ _ }
  | addRow => exact { CountersLe.refl db with transactions := Nat.le_succ _ }
  | openBatch => exact { CountersLe.refl db with importBatches := Nat.le_succ _ }
  | credit | putTemplate | dropTemplate | putRow | deleteRows | assignBatch | putBatch =>
    exact ⟨le_rfl, le_rfl, le_rfl, le_rfl, le_rfl, le_rfl⟩

theorem WritesMany.countersLe {org : ℕ} {db db' : Db} (h : WritesMany org db db') :
    db.CountersLe db' := by
  induction h with
  | refl => exact .refl _
  | tail _ hwrite ih => exact ih.trans hwrite.countersLe

/-- The same rows of an organisation in a later ledger. -/
theorem skipsIds_only {o : ℕ} {db db' : Db} (h : db'.view o = db.view o)
    (hcounters : db.CountersLe db') : (db.only o).SkipsIds (db'.only o) where
  accountTypes := ⟨congrArg OrgView.accountTypes h, hcounters.accountTypes⟩
  accounts := ⟨congrArg OrgView.accounts h, hcounters.accounts⟩
  categories := ⟨congrArg OrgView.categories h, hcounters.categories⟩
  transactions := ⟨congrArg OrgView.transactions h, hcounters.transactions⟩
  recurring := ⟨congrArg OrgView.recurring h, hcounters.recurring⟩
  importBatches := ⟨congrArg OrgView.importBatches h, hcounters.importBatches⟩

/-- A run of the requests of one organisation in a ledger of its own: requests are served one after
another, and between them ids may be skipped. -/
inductive Alone (o : ℕ) : Db → List Request → Db → Prop
  | done (db : Db) : Alone o db [] db
  | serve {db db' : Db} {r : Request} {rs : List Request} (horg : r.org = o)
      (h : Alone o (serve Request.step db r) rs db') : Alone o db (r :: rs) db'
  | skip {db d db' : Db} {rs : List Request} (hskip : db.SkipsIds d) (h : Alone o d rs db') :
      Alone o db rs db'

end Db

theorem alone_of_requests {o : ℕ} (rs : List Request) {db : Db} (hwf : db.WellFormed)
    (hdb : db.Tenanted) :
    Db.Alone o (db.only o) (rs.filter (·.org = o)) ((serveAll Request.step db rs).only o) := by
  induction rs generalizing db with
  | nil => exact .done _
  | cons r rs ih =>
    have hstep : (serve Request.step db r).WellFormed ∧ (serve Request.step db r).Tenanted :=
      serve_invariant (I := fun db => db.WellFormed ∧ db.Tenanted) ⟨hwf, hdb⟩ fun db' h =>
        ⟨Request.step_wellFormed hwf h, (Request.step_writes hdb hwf h).tenanted hdb⟩
    have hrest := ih hstep.1 hstep.2
    by_cases horg : r.org = o
    · subst horg
      rw [List.filter_cons_of_pos (by simp)]
      refine .serve rfl ?_
      rwa [← (Request.step_seen hdb hwf).serve_eq]
    · rw [List.filter_cons_of_neg (by simpa using horg)]
      refine .skip (Db.skipsIds_only ?_ ?_) hrest
      · exact view_eq_of_requests hwf hdb (by simpa using horg : ∀ r' ∈ [r], r'.org ≠ o)
      · rcases serve_cases Request.step db r with h | h
        · exact (Request.step_writes hdb hwf h).countersLe
        · rw [h]
          exact .refl db

/-- What an organisation sees of a run of requests of all organisations is a run of its own requests
in a ledger of its own, whatever the requests of the others are and however they are mixed with
its own. -/
theorem alone_of_run {ok : Request → Prop} {db : Db} (h : db.ReachableBy ok) (o : ℕ)
    (rs : List Request) :
    Db.Alone o (db.only o) (rs.filter (·.org = o)) ((serveAll Request.step db rs).only o) :=
  alone_of_requests rs h.wellFormed h.tenanted

theorem sampleMixed_alone : Db.Alone 2 (sampleShared.only 2) (sampleMixed.filter (·.org = 2))
    ((serveAll Request.step sampleShared sampleMixed).only 2) :=
  alone_of_run sampleShared_reachable 2 sampleMixed

end Pfv
