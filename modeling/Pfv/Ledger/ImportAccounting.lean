import Pfv.Ledger.Batches
import Pfv.Services.Learning

/-!
# The accounts of an import

What an import answers against what it did: how many rows ended in what, how many transactions it
stored, how many rows its batch has, and what a failing row leaves behind. The database and the
rules are as before after a failing row, but the session is not: the rollback of a savepoint that
had written the balance of the destination account expires the loaded account, and a later row that
reads its currency fails for that alone.

## Main definitions

* `outcomes`: what the rows of an import end in.
* `Books.ImportAccounted`: what the answer of an import promises.
* `LoadMatters`: whether the destination account is loaded decides the outcome of a later row.
* `Books.Undisturbed`: no failing row changes that for a later row.

## Main results

* `executeImport_counted`: the counts, the stored rows and the batch always add up.
* `sameOutcomes_iff`: two states that differ only in whether the destination account is loaded.
* `importAccounted_iff`: an import keeps all its promises when it is undisturbed.
-/

namespace Pfv

/-! ### Outcomes -/

/-- What the rows of an import end in, one after the other. -/
def outcomes (org : ℕ) (body : ImportConfirmRequest) (currency : String) :
    ImportState → List ImportConfirmRow → List RowOutcome
  | _, [] => []
  | s, row :: rows =>
      rowOutcome org body currency s row ::
        outcomes org body currency (importStep org body currency s row) rows

def RowOutcome.isFailed : RowOutcome → Bool
  | .failed _ => true
  | _ => false

/-- The number of transactions a row stores. -/
def RowOutcome.stored : RowOutcome → ℕ
  | .done .create => 1
  | .done .pairWithExisting => 1
  | .done .createTransferPair => 2
  | _ => 0

/-- The transactions a row of an import refers to. -/
def ImportConfirmRow.references (row : ImportConfirmRow) : List ℕ :=
  match row.action with
  | .pairWithExisting => row.pairWithTransactionId.toList
  | .dropAsDuplicate => row.duplicateOfTransactionId.toList
  | _ => []

section Loop

variable {db db' : Db} {org : ℕ} {body : ImportConfirmRequest} {currency : String}

/-- A turn of the loop skips the row, reports it or stores what it asks for. -/
theorem importStep_cases (s : ImportState) (row : ImportConfirmRow) :
    (row.skip = true ∧ rowOutcome org body currency s row = .skipped ∧
      importStep org body currency s row = { s with skippedCount := s.skippedCount + 1 }) ∨
    (∃ e loaded, row.skip = false ∧
      importRow s.db org body currency row s.destinationLoaded = .error (e, loaded) ∧
      rowOutcome org body currency s row = .failed e ∧
      importStep org body currency s row =
        { s with errors := s.errors ++ [⟨row.rowNumber, e⟩], destinationLoaded := loaded }) ∨
    ∃ d id loaded, row.skip = false ∧
      importRow s.db org body currency row s.destinationLoaded = .ok (d, id, loaded) ∧
      rowOutcome org body currency s row = .done row.action ∧
      importStep org body currency s row =
        ImportState.count
          { s with
            db := d
            importedTransactionIds := s.importedTransactionIds ++ id.toList
            destinationLoaded := loaded } row.action := by
  unfold importStep rowOutcome
  by_cases hskip : row.skip = true
  · exact .inl ⟨hskip, by rw [if_pos hskip], by rw [if_pos hskip]⟩
  · rw [if_neg hskip, if_neg hskip]
    rw [Bool.not_eq_true] at hskip
    rcases hrow : importRow s.db org body currency row s.destinationLoaded with
      ⟨e, loaded⟩ | ⟨d, id, loaded⟩
    · exact .inr (.inl ⟨e, loaded, hskip, rfl, rfl, rfl⟩)
    · exact .inr (.inr ⟨d, id, loaded, hskip, rfl, rfl, rfl⟩)

/-- A failing row leaves the state as it was, but for its report and for whether the destination
account is loaded. -/
theorem importStep_of_failed {s : ImportState} {row : ImportConfirmRow} {e : ServiceError}
    (h : rowOutcome org body currency s row = .failed e) :
    ∃ loaded, importRow s.db org body currency row s.destinationLoaded = .error (e, loaded) ∧
      importStep org body currency s row =
        { s with errors := s.errors ++ [⟨row.rowNumber, e⟩], destinationLoaded := loaded } := by
  rcases @importStep_cases org body currency s row with
    ⟨-, hout, -⟩ | ⟨e', loaded, -, hrow, hout, hstep⟩ | ⟨d, id, loaded, -, -, hout, -⟩
  · exact absurd (hout.symm.trans h) (by simp)
  · obtain rfl : e' = e := by simpa using hout.symm.trans h
    exact ⟨loaded, hrow, hstep⟩
  · exact absurd (hout.symm.trans h) (by simp)

/-! ### Stored rows -/

theorem Db.length_post (db : Db) (t : Transaction) :
    (db.post t).transactions.rows.length = db.transactions.rows.length + 1 := by
  show (db.transactions.rows ++ [_]).length = _
  rw [List.length_append, List.length_singleton]

theorem importLink_length {row : ImportConfirmRow} {leg other : Transaction}
    (hleg : db.transactions.get? leg.id = some leg)
    (hother : db.transactions.get? other.id = some other)
    (h : importLink db row leg other = .ok db') :
    db'.transactions.rows.length = db.transactions.rows.length := by
  obtain ⟨e, i, db₁, cat, -, hcat, rfl⟩ := importLink_ok hleg hother h
  rw [← hcat.transactions]
  show ((db₁.transactions.rows.map _).map _).length = _
  rw [List.length_map, List.length_map]

/-- A row that goes through stores the rows its action asks for. -/
theorem importRow_length {row : ImportConfirmRow} {loaded loaded' : Bool} {id : Option ℕ}
    (h : importRow db org body currency row loaded = .ok (db', id, loaded')) :
    db'.transactions.rows.length =
      db.transactions.rows.length + (RowOutcome.done row.action).stored := by
  unfold importRow at h
  split at h
  · next haction =>
    simp only [importCreate, bind_eq_ok, flushingLeg_eq_ok, Prod.exists, pure_eq_ok,
      Prod.mk.injEq] at h
    obtain ⟨_, _, hleg, rfl, -⟩ := h
    obtain ⟨txBody, -, -, -, rfl, -⟩ := importLeg_ok hleg
    rw [haction, Db.length_post, RowOutcome.stored]
  · next haction =>
    simp only [importPairWithExisting, importPair, bind_eq_ok, orRaise_eq_ok, flushingLeg_eq_ok,
      leavingLoaded_eq_ok, Prod.exists, pure_eq_ok, Prod.mk.injEq] at h
    obtain ⟨_, -, _, _, hleg, _, ⟨partner, hpartner, _, -, _, -, _, -, _, -, hlink⟩, rfl, -⟩ := h
    obtain ⟨txBody, -, -, -, rfl, rfl⟩ := importLeg_ok hleg
    rw [importLink_length (by exact Db.get?_post_next _ _) (Db.transaction?_self hpartner) hlink,
      haction, Db.length_post, RowOutcome.stored]
  · next haction =>
    simp only [importDropAsDuplicate, bind_eq_ok, pure_eq_ok, Prod.mk.injEq] at h
    obtain ⟨_, -, _, -, _, -, _, -, rfl, -⟩ := h
    rw [haction]
    rfl
  · next haction =>
    unfold importCreateTransferPair importPartnerLeg at h
    simp only [↓unit_bind_eq_ok, bind_eq_ok, flushingLeg_eq_ok,
      leavingLoaded_eq_ok, Prod.exists, pure_eq_ok, Prod.mk.injEq] at h
    obtain ⟨_, -, _, -, -, -, -, -, _, _, hleg, _, ⟨_, -, _, _, hcreate, hlink⟩, rfl, -⟩ := h
    obtain ⟨txBody, -, -, -, rfl, rfl⟩ := importLeg_ok hleg
    obtain ⟨-, rfl, rfl⟩ := createTransactionNoCommit_ok hcreate
    rw [importLink_length (by exact Table.get?_insert_of_some _ (Db.get?_post_next _ _))
      (by exact Table.get?_insert_next _ _) hlink, haction, Db.length_post, Db.length_post,
      RowOutcome.stored]

/-! ### Counts -/

/-- The variables of the loop count the outcomes of its rows. -/
structure ImportCounted (start s : ImportState) (os : List RowOutcome) : Prop where
  imported : s.importedCount = start.importedCount + os.count (.done .create)
  paired : s.pairedCount = start.pairedCount + os.count (.done .pairWithExisting) +
    os.count (.done .createTransferPair)
  dropped : s.droppedDuplicateCount =
    start.droppedDuplicateCount + os.count (.done .dropAsDuplicate)
  skipped : s.skippedCount = start.skippedCount + os.count .skipped
  failed : s.errors.length = start.errors.length + os.countP RowOutcome.isFailed
  stored : s.db.transactions.rows.length =
    start.db.transactions.rows.length + (os.map RowOutcome.stored).sum

theorem ImportCounted.refl (s : ImportState) : ImportCounted s s [] := by
  constructor <;> simp

theorem ImportCounted.trans {s₀ s₁ s₂ : ImportState} {os os' : List RowOutcome}
    (h : ImportCounted s₀ s₁ os) (h' : ImportCounted s₁ s₂ os') :
    ImportCounted s₀ s₂ (os ++ os') where
  imported := by rw [h'.imported, h.imported, List.count_append, add_assoc]
  paired := by
    rw [h'.paired, h.paired, List.count_append, List.count_append]
    omega
  dropped := by rw [h'.dropped, h.dropped, List.count_append, add_assoc]
  skipped := by rw [h'.skipped, h.skipped, List.count_append, add_assoc]
  failed := by rw [h'.failed, h.failed, List.countP_append, add_assoc]
  stored := by rw [h'.stored, h.stored, List.map_append, List.sum_append, add_assoc]

/-- A turn of the loop counts the outcome of its row. -/
theorem importStep_counted (s : ImportState) (row : ImportConfirmRow) :
    ImportCounted s (importStep org body currency s row)
      [rowOutcome org body currency s row] := by
  rcases @importStep_cases org body currency s row with
    ⟨-, hout, hstep⟩ | ⟨e, loaded, -, -, hout, hstep⟩ | ⟨d, id, loaded, -, hrow, hout, hstep⟩
  · rw [hout, hstep]
    constructor <;> rfl
  · rw [hout, hstep]
    constructor <;> simp [RowOutcome.isFailed, RowOutcome.stored]
  · rw [hout, hstep]
    have hlength := importRow_length hrow
    cases haction : row.action <;> rw [haction] at hlength <;>
      constructor <;> simp [ImportState.count, RowOutcome.isFailed, hlength]

/-- The loop counts the outcomes of all rows. -/
theorem foldl_importStep_counted (s : ImportState) (rows : List ImportConfirmRow) :
    ImportCounted s (rows.foldl (importStep org body currency) s)
      (outcomes org body currency s rows) := by
  induction rows generalizing s with
  | nil => exact .refl s
  | cons row rows ih => exact (importStep_counted s row).trans (ih _)

end Loop

/-- Every row has one outcome. -/
theorem length_outcomes (org : ℕ) (body : ImportConfirmRequest) (currency : String)
    (s : ImportState) (rows : List ImportConfirmRow) :
    (outcomes org body currency s rows).length = rows.length := by
  induction rows generalizing s with
  | nil => rfl
  | cons row rows ih => rw [outcomes, List.length_cons, List.length_cons, ih]

/-- Every outcome is counted exactly once. -/
theorem sum_counts_eq_length (os : List RowOutcome) :
    os.count (.done .create) + os.count (.done .pairWithExisting) +
      os.count (.done .createTransferPair) + os.count (.done .dropAsDuplicate) +
      os.count .skipped + os.countP RowOutcome.isFailed = os.length := by
  induction os with
  | nil => rfl
  | cons o os ih =>
    rcases o with _ | e | action
    · simp [RowOutcome.isFailed]
      omega
    · simp [List.countP_cons, RowOutcome.isFailed]
      omega
    · cases action <;> simp [RowOutcome.isFailed] <;> omega

/-- The number of stored rows, from the counts. -/
theorem sum_stored_eq (os : List RowOutcome) :
    (os.map RowOutcome.stored).sum = os.count (.done .create) +
      os.count (.done .pairWithExisting) + 2 * os.count (.done .createTransferPair) := by
  induction os with
  | nil => rfl
  | cons o os ih =>
    rw [List.map_cons, List.sum_cons, ih]
    rcases o with _ | e | action
    · simp [RowOutcome.stored]
    · simp [RowOutcome.stored]
    · cases action <;> simp [RowOutcome.stored] <;> omega

/-! ### Whether the destination account is loaded -/

section Reading

/-- The row gets to a point where it reads the currency of the destination account. -/
def ImportConfirmRow.ReadsCurrency (row : ImportConfirmRow) (db : Db) (org : ℕ)
    (body : ImportConfirmRequest) : Prop :=
  row.skip = false ∧
    match row.action with
    | .dropAsDuplicate => row.duplicateOfTransactionId.isSome = true
    | .createTransferPair =>
        ∃ k ∈ row.partnerAccountId, (db.account? k org).isSome = true ∧ k ≠ body.accountId
    | _ => False

/-- The leg of the row fails before the database is asked to store it. -/
def ImportConfirmRow.FailsUnflushed (row : ImportConfirmRow) (db : Db) (org : ℕ)
    (body : ImportConfirmRequest) : Prop :=
  ∃ e, importLeg db org body row = .error e ∧ e.isDatabase = false

/-- The row ends without loading the destination account or writing its balance. -/
def ImportConfirmRow.PassesOver (row : ImportConfirmRow) (db : Db) (org : ℕ)
    (body : ImportConfirmRequest) : Prop :=
  row.skip = true ∨
    match row.action with
    | .create => row.FailsUnflushed db org body
    | .pairWithExisting => row.pairWithTransactionId = none ∨ row.FailsUnflushed db org body
    | .dropAsDuplicate => True
    | .createTransferPair => ∀ k ∈ row.partnerAccountId, db.account? k org = none

/-- Whether the destination account is loaded decides the outcome of a row that does not refer to
the given transactions: such a row reads its currency before another row loads or expires it. -/
def LoadMatters (db : Db) (org : ℕ) (body : ImportConfirmRequest) (ids : List ℕ) :
    List ImportConfirmRow → Prop
  | [] => False
  | row :: rows =>
      row.ReadsCurrency db org body ∧ (∀ i ∈ ids, i ∉ row.references) ∨
        row.PassesOver db org body ∧ LoadMatters db org body ids rows

variable {db db' : Db} {org : ℕ} {body : ImportConfirmRequest} {currency : String}
  {row : ImportConfirmRow}

/-! #### What no service raises -/

theorem leavingLoaded_ne_error {α : Type} {loaded l : Bool} {x : Except ServiceError α}
    {e : ServiceError} (h : x ≠ .error e) : leavingLoaded loaded x ≠ .error (e, l) := by
  cases x with
  | error e' =>
    intro h'
    simp only [leavingLoaded, Except.mapError, Except.error.injEq, Prod.mk.injEq] at h'
    exact h (congrArg Except.error h'.1)
  | ok a => exact fun h' => by cases h'

theorem flushingLeg_ne_error {α : Type} {loaded l : Bool} {x : Except ServiceError α}
    {e : ServiceError} (h : x ≠ .error e) : flushingLeg loaded x ≠ .error (e, l) := by
  cases x with
  | error e' =>
    intro h'
    simp only [flushingLeg, Except.mapError, Except.error.injEq, Prod.mk.injEq] at h'
    exact h (congrArg Except.error h'.1)
  | ok a => exact fun h' => by cases h'

theorem lockAccounts_ne_missingGreenlet (l : List ℕ) :
    lockAccounts db org l ≠ .error .missingGreenlet := by
  induction l with
  | nil => exact fun h => by cases h
  | cons a l ih => exact bind_ne_error (orRaise_ne_error (by simp)) fun _ _ => ih

theorem toCreate_ne_missingGreenlet {accountId categoryId : ℕ} {type : EntryType} :
    row.toCreate accountId categoryId type ≠ .error .missingGreenlet :=
  bind_ne_error (orRaise_ne_error (by simp)) fun _ _ =>
    bind_ne_error (orRaise_ne_error (by simp)) fun _ _ h => by cases h

theorem validateCategoryForType_ne_missingGreenlet {categoryId : ℕ} {type : TransactionType} :
    validateCategoryForType db categoryId org type ≠ .error .missingGreenlet := by
  refine bind_ne_error (orRaise_ne_error (by simp)) fun cat _ =>
    bind_ne_error (raiseIf_ne_error (by simp)) fun _ _ => ?_
  split
  · exact fun h => by cases h
  · exact raiseIf_ne_error (by simp)

theorem postSettled_ne_missingGreenlet {t : Transaction} :
    postSettled db org t ≠ .error .missingGreenlet := by
  unfold postSettled
  split_ifs
  · refine bind_ne_error (orRaise_ne_error (by simp)) fun acct _ => ?_
    cases t.type <;> exact fun h => by cases h
  · exact fun h => by cases h

theorem createTransactionNoCommit_ne_missingGreenlet {txBody : TransactionCreate}
    {isImported isManualAdjustment : Bool} {fitid : Option String} :
    createTransactionNoCommit db org txBody isImported isManualAdjustment fitid ≠
      .error .missingGreenlet :=
  bind_ne_error (raiseIf_ne_error (by simp)) fun _ _ =>
    bind_ne_error validateCategoryForType_ne_missingGreenlet fun _ _ =>
      bind_ne_error postSettled_ne_missingGreenlet fun _ _ =>
        bind_ne_error (raiseIf_ne_error (by simp)) fun _ _ =>
          bind_ne_error (raiseIf_ne_error (by simp)) fun _ _ h => by cases h

theorem importLeg_ne_missingGreenlet : importLeg db org body row ≠ .error .missingGreenlet :=
  bind_ne_error toCreate_ne_missingGreenlet fun _ _ => createTransactionNoCommit_ne_missingGreenlet

theorem saveTransaction_ne_missingGreenlet {t : Transaction} :
    saveTransaction db t ≠ .error .missingGreenlet :=
  bind_ne_error (raiseIf_ne_error (by simp)) fun _ _ h => by cases h

theorem transferCategory_ne_missingGreenlet {recategorize : Bool} {id : Option ℕ} :
    transferCategory db org recategorize id ≠ .error .missingGreenlet := by
  unfold transferCategory
  split
  · exact fun h => by cases h
  · split
    · exact fun h => by cases h
    · refine bind_ne_error (bind_ne_error (orRaise_ne_error (by simp)) fun _ _ =>
        raiseIf_ne_error (by simp)) fun _ _ h => by cases h

theorem linkPair_ne_missingGreenlet {e i : Transaction} {recategorize : Bool} {id : Option ℕ} :
    linkPair db e i recategorize id ≠ .error .missingGreenlet := by
  have hcheck : checkPair db e i ≠ .error .missingGreenlet := by
    unfold checkPair
    repeat refine bind_ne_error (raiseIf_ne_error (by simp)) fun _ _ => ?_
    exact raiseIf_ne_error (by simp)
  exact bind_ne_error hcheck fun _ _ => bind_ne_error transferCategory_ne_missingGreenlet fun _ _ =>
    bind_ne_error saveTransaction_ne_missingGreenlet fun _ _ => saveTransaction_ne_missingGreenlet

theorem importPartnerLeg_ne_missingGreenlet {k : ℕ} {csvLeg : Transaction} :
    importPartnerLeg db org body row k csvLeg ≠ .error .missingGreenlet := by
  refine bind_ne_error toCreate_ne_missingGreenlet fun _ _ =>
    bind_ne_error createTransactionNoCommit_ne_missingGreenlet fun _ _ => ?_
  unfold importLink
  split_ifs
  · exact linkPair_ne_missingGreenlet
  · exact linkPair_ne_missingGreenlet

/-! #### One row -/

/-- A row that reads the currency fails when the destination account is not loaded, and for no such
reason when it is. -/
theorem importRow_of_reads (h : row.ReadsCurrency db org body) :
    importRow db org body currency row false = .error (.missingGreenlet, false) ∧
      ∀ l, importRow db org body currency row true ≠ .error (.missingGreenlet, l) := by
  obtain ⟨-, h⟩ := h
  unfold importRow
  split at h
  · next haction =>
    obtain ⟨k, hk⟩ := Option.isSome_iff_exists.mp h
    rw [haction]
    refine ⟨?_, fun l => ?_⟩
    · show importDropAsDuplicate db org body currency row false = _
      simp [importDropAsDuplicate, hk, orRaise, raiseIf, bind, Except.bind]
    · show importDropAsDuplicate db org body currency row true ≠ _
      refine bind_ne_error (orRaise_ne_error (by simp)) fun _ _ =>
        bind_ne_error (by simp [raiseIf]) fun _ _ =>
          bind_ne_error (raiseIf_ne_error (by simp)) fun _ _ =>
            bind_ne_error (raiseIf_ne_error (by simp)) fun _ _ h => by cases h
  · next haction =>
    obtain ⟨k, hk, hacct, hne⟩ := h
    obtain ⟨acct, hacct⟩ := Option.isSome_iff_exists.mp hacct
    have hid : acct.id ≠ body.accountId := by
      rw [show acct.id = k from Table.get?_id (Db.account?_eq_some.mp hacct).1]
      exact hne
    rw [haction]
    refine ⟨?_, fun l => ?_⟩
    · show importCreateTransferPair db org body currency row false = _
      rw [Option.mem_def] at hk
      simp [importCreateTransferPair, hk, hacct, hid, orRaise, raiseIf, bind, Except.bind]
    · show importCreateTransferPair db org body currency row true ≠ _
      refine bind_ne_error (orRaise_ne_error (by simp)) fun _ _ =>
        bind_ne_error (orRaise_ne_error (by simp)) fun _ _ =>
          bind_ne_error (raiseIf_ne_error (by simp)) fun _ _ =>
            bind_ne_error (by simp [raiseIf]) fun _ _ =>
              bind_ne_error (raiseIf_ne_error (by simp)) fun _ _ =>
                bind_ne_error (leavingLoaded_ne_error (lockAccounts_ne_missingGreenlet _))
                  fun _ _ => bind_ne_error (flushingLeg_ne_error importLeg_ne_missingGreenlet)
                    fun _ _ => bind_ne_error
                      (leavingLoaded_ne_error importPartnerLeg_ne_missingGreenlet)
                      fun _ _ h => by cases h
  · exact h.elim

/-- A leg that fails leaves the destination account loaded or not as the row found it, or, when the
database refused it, expires it. -/
theorem flushingLeg_of_error {α : Type} {x : Except ServiceError α} {e : ServiceError}
    (h : x = .error e) (loaded : Bool) :
    flushingLeg loaded x = .error (e, if e.isDatabase = true then false else loaded) := by
  rw [h]
  cases he : e.isDatabase <;> simp [flushingLeg, Except.mapError, he]

theorem flushingLeg_of_ok {α : Type} {x : Except ServiceError α} {a : α} (h : x = .ok a)
    (loaded : Bool) : flushingLeg loaded x = .ok a :=
  flushingLeg_eq_ok.mpr h

/-- The leg of a row fails before the flush, or comes to the same whether the destination account is
loaded or not. -/
theorem flushingLeg_cases (db : Db) (org : ℕ) (body : ImportConfirmRequest)
    (row : ImportConfirmRow) :
    (row.FailsUnflushed db org body ∧
      ∃ e, ∀ loaded, flushingLeg loaded (importLeg db org body row) = .error (e, loaded)) ∨
    (¬row.FailsUnflushed db org body ∧
      flushingLeg true (importLeg db org body row) =
        flushingLeg false (importLeg db org body row)) := by
  rcases hleg : importLeg db org body row with e | p
  · by_cases he : e.isDatabase = true
    · refine .inr ⟨?_, ?_⟩
      · rintro ⟨e', hleg', he'⟩
        rw [hleg, Except.error.injEq] at hleg'
        rw [hleg', he'] at he
        cases he
      · rw [flushingLeg_of_error rfl, flushingLeg_of_error rfl, if_pos he, if_pos he]
    · refine .inl ⟨⟨e, hleg, by simpa using he⟩, e, fun loaded => ?_⟩
      rw [flushingLeg_of_error rfl, if_neg he]
  · refine .inr ⟨?_, by rw [flushingLeg_of_ok rfl, flushingLeg_of_ok rfl]⟩
    rintro ⟨e', hleg', -⟩
    rw [hleg] at hleg'
    cases hleg'

/-- A row that does not read the currency fails and leaves the destination account loaded or not as
it found it, or comes to the same whether it is loaded or not. -/
theorem importRow_of_not_reads (hskip : row.skip = false) (h : ¬row.ReadsCurrency db org body) :
    (row.PassesOver db org body ∧
      ∃ e, ∀ loaded, importRow db org body currency row loaded = .error (e, loaded)) ∨
    (¬row.PassesOver db org body ∧
      importRow db org body currency row true = importRow db org body currency row false) := by
  unfold ImportConfirmRow.ReadsCurrency at h
  unfold ImportConfirmRow.PassesOver importRow
  simp only [hskip, true_and, Bool.false_eq_true, false_or] at h ⊢
  cases haction : row.action with
  | create =>
    rcases flushingLeg_cases db org body row with ⟨hfails, e, he⟩ | ⟨hno, heq⟩
    · exact .inl ⟨hfails, e, fun loaded => by
        rw [importCreate, bind_of_error (he loaded)]⟩
    · exact .inr ⟨hno, by rw [importCreate, importCreate, heq]⟩
  | pairWithExisting =>
    cases hid : row.pairWithTransactionId with
    | none =>
      exact .inl ⟨.inl rfl, _, fun loaded => by
        simp only [importPairWithExisting, hid, orRaise, bind, Except.bind]
        rfl⟩
    | some k =>
      have hsome (loaded : Bool) : importPairWithExisting db org body currency row loaded = _ :=
        bind_of_ok (congrArg (orRaise · _) hid)
      rcases flushingLeg_cases db org body row with ⟨hfails, e, he⟩ | ⟨hno, heq⟩
      · exact .inl ⟨.inr hfails, e, fun loaded => by
          rw [hsome, bind_of_error (he loaded)]⟩
      · exact .inr ⟨by simpa using hno, by rw [hsome, hsome, heq]⟩
  | dropAsDuplicate =>
    rw [haction] at h
    rw [Bool.not_eq_true, Option.isSome_eq_false_iff, Option.isNone_iff_eq_none] at h
    exact .inl ⟨trivial, _, fun loaded => by
      simp only [importDropAsDuplicate, h, orRaise, bind, Except.bind]
      rfl⟩
  | createTransferPair =>
    rw [haction] at h
    cases hk : row.partnerAccountId with
    | none =>
      exact .inl ⟨by simp, _, fun loaded => by
        simp only [importCreateTransferPair, hk, orRaise, bind, Except.bind]
        rfl⟩
    | some k =>
      cases hacct : db.account? k org with
      | none =>
        exact .inl ⟨by simp [hacct], _, fun loaded => by
          simp only [importCreateTransferPair, hk, hacct, orRaise, bind, Except.bind]
          rfl⟩
      | some acct =>
        -- The row is about the destination account itself, which the lookup has loaded.
        have hself : acct.id = body.accountId := by
          rw [show acct.id = k from Table.get?_id (Db.account?_eq_some.mp hacct).1]
          by_contra hne
          exact h ⟨k, hk, by rw [hacct]; rfl, hne⟩
        refine .inr ⟨by simp [hacct], ?_⟩
        simp [importCreateTransferPair, hk, hacct, hself, orRaise, raiseIf, bind, Except.bind]

/-- A row that reads the currency and passes over the account stores nothing. -/
theorem importRow_of_reads_of_passesOver (h : row.ReadsCurrency db org body)
    (hpass : row.PassesOver db org body) :
    (∃ e, importRow db org body currency row true = .error (e, true)) ∨
      importRow db org body currency row true = .ok (db, none, true) := by
  obtain ⟨hskip, h⟩ := h
  unfold ImportConfirmRow.PassesOver at hpass
  rw [hskip] at hpass
  simp only [Bool.false_eq_true, false_or] at hpass
  unfold importRow
  cases haction : row.action with
  | create => rw [haction] at h; exact h.elim
  | pairWithExisting => rw [haction] at h; exact h.elim
  | dropAsDuplicate =>
    rw [haction] at h
    obtain ⟨k, hk⟩ := Option.isSome_iff_exists.mp h
    show (∃ e, importDropAsDuplicate db org body currency row true = _) ∨
      importDropAsDuplicate db org body currency row true = _
    by_cases hoverflow : ¬row.date.HasWindow
    · refine .inl ⟨.dateOverflow, ?_⟩
      simp only [importDropAsDuplicate, hk, orRaise, bind, Except.bind, raiseIf_of hoverflow]
      rfl
    by_cases hdup : k ∉ (findDuplicateOfLinkedLeg db org body.accountId row.amount
        row.type.toTransactionType row.date currency).map (·.id)
    · refine .inl ⟨.conflict "Duplicate candidate no longer matches; re-preview", ?_⟩
      simp only [importDropAsDuplicate, hk, orRaise, bind, Except.bind, raiseIf_of_not hoverflow,
        raiseIf_of hdup]
      rfl
    · refine .inr ?_
      simp only [importDropAsDuplicate, hk, orRaise, bind, Except.bind, raiseIf_of_not hoverflow,
        raiseIf_of_not hdup]
      rfl
  | createTransferPair =>
    rw [haction] at h hpass
    obtain ⟨k, hk, hacct, -⟩ := h
    rw [hpass k hk] at hacct
    exact absurd hacct (by simp)

/-! #### Later rows -/

/-- From two states of the loop the rows that refer to none of the given transactions end in the
same. -/
def SameOutcomes (org : ℕ) (body : ImportConfirmRequest) (currency : String) (ids : List ℕ)
    (s t : ImportState) (rows : List ImportConfirmRow) : Prop :=
  ∀ mid row rest, rows = mid ++ row :: rest → (∀ i ∈ ids, i ∉ row.references) →
    rowOutcome org body currency (mid.foldl (importStep org body currency) s) row =
      rowOutcome org body currency (mid.foldl (importStep org body currency) t) row

variable {ids : List ℕ} {s t : ImportState} {rows : List ImportConfirmRow}

theorem sameOutcomes_nil : SameOutcomes org body currency ids s t [] :=
  fun _ _ _ h => absurd h (by simp)

theorem sameOutcomes_cons :
    SameOutcomes org body currency ids s t (row :: rows) ↔
      ((∀ i ∈ ids, i ∉ row.references) →
        rowOutcome org body currency s row = rowOutcome org body currency t row) ∧
      SameOutcomes org body currency ids (importStep org body currency s row)
        (importStep org body currency t row) rows := by
  constructor
  · intro h
    exact ⟨fun hids => h [] row rows rfl hids,
      fun mid r rest hrows hids => h (row :: mid) r rest (by rw [hrows]; rfl) hids⟩
  · rintro ⟨hrow, hrows⟩ mid r rest heq hids
    rcases List.cons_eq_append_iff.mp heq with ⟨rfl, hcons⟩ | ⟨mid', rfl, htail⟩
    · obtain ⟨rfl, -⟩ := List.cons.inj hcons
      exact hrow hids
    · exact hrows mid' r rest htail hids

theorem SameOutcomes.symm (h : SameOutcomes org body currency ids s t rows) :
    SameOutcomes org body currency ids t s rows :=
  fun mid r rest hrows hids => (h mid r rest hrows hids).symm

@[simp] theorem ImportState.count_db (s : ImportState) (a : ImportAction) :
    (s.count a).db = s.db := by
  cases a <;> rfl

@[simp] theorem ImportState.count_destinationLoaded (s : ImportState) (a : ImportAction) :
    (s.count a).destinationLoaded = s.destinationLoaded := by
  cases a <;> rfl

theorem importStep_of_skip (h : row.skip = true) :
    (importStep org body currency s row).db = s.db ∧
      (importStep org body currency s row).destinationLoaded = s.destinationLoaded ∧
      rowOutcome org body currency s row = .skipped := by
  unfold importStep rowOutcome
  rw [if_pos h, if_pos h]
  exact ⟨rfl, rfl, rfl⟩

theorem importStep_of_error (hskip : row.skip = false) {e : ServiceError} {loaded : Bool}
    (h : importRow s.db org body currency row s.destinationLoaded = .error (e, loaded)) :
    (importStep org body currency s row).db = s.db ∧
      (importStep org body currency s row).destinationLoaded = loaded ∧
      rowOutcome org body currency s row = .failed e := by
  unfold importStep rowOutcome
  rw [hskip, h]
  exact ⟨rfl, rfl, rfl⟩

theorem importStep_of_ok (hskip : row.skip = false) {d : Db} {id : Option ℕ} {loaded : Bool}
    (h : importRow s.db org body currency row s.destinationLoaded = .ok (d, id, loaded)) :
    (importStep org body currency s row).db = d ∧
      (importStep org body currency s row).destinationLoaded = loaded ∧
      rowOutcome org body currency s row = .done row.action := by
  unfold importStep rowOutcome
  rw [hskip, h]
  simp

/-- A turn depends on the database and on what the row comes to. -/
theorem importStep_congr (hdb : s.db = t.db)
    (hrow : importRow t.db org body currency row s.destinationLoaded =
      importRow t.db org body currency row t.destinationLoaded)
    (hskip : row.skip = true → s.destinationLoaded = t.destinationLoaded) :
    (importStep org body currency s row).db = (importStep org body currency t row).db ∧
      (importStep org body currency s row).destinationLoaded =
        (importStep org body currency t row).destinationLoaded ∧
      rowOutcome org body currency s row = rowOutcome org body currency t row := by
  by_cases h : row.skip = true
  · obtain ⟨hs, hs', hs''⟩ := @importStep_of_skip org body currency row s h
    obtain ⟨ht, ht', ht''⟩ := @importStep_of_skip org body currency row t h
    exact ⟨by rw [hs, ht, hdb], by rw [hs', ht', hskip h], by rw [hs'', ht'']⟩
  · rw [Bool.not_eq_true] at h
    rcases hout : importRow t.db org body currency row t.destinationLoaded with
      ⟨e, l⟩ | ⟨d, id, l⟩
    · obtain ⟨ht, ht', ht''⟩ := importStep_of_error h hout
      obtain ⟨hs, hs', hs''⟩ := importStep_of_error (s := s) h (by rw [hdb, hrow, hout])
      exact ⟨by rw [hs, ht, hdb], by rw [hs', ht'], by rw [hs'', ht'']⟩
    · obtain ⟨ht, ht', ht''⟩ := importStep_of_ok h hout
      obtain ⟨hs, hs', hs''⟩ := importStep_of_ok (s := s) h (by rw [hdb, hrow, hout])
      exact ⟨by rw [hs, ht], by rw [hs', ht'], by rw [hs'', ht'']⟩

theorem sameOutcomes_of_eq (hdb : s.db = t.db)
    (hloaded : s.destinationLoaded = t.destinationLoaded) :
    SameOutcomes org body currency ids s t rows := by
  induction rows generalizing s t with
  | nil => exact sameOutcomes_nil
  | cons row rows ih =>
    obtain ⟨hdb', hloaded', hout⟩ :=
      @importStep_congr org body currency row _ _ hdb (by rw [hloaded]) fun _ => hloaded
    exact sameOutcomes_cons.mpr ⟨fun _ => hout, ih hdb' hloaded'⟩

/-- A row that reads the currency ends differently whether the destination account is loaded or
not. -/
theorem rowOutcome_ne_of_reads (hdb : s.db = t.db) (hs : s.destinationLoaded = true)
    (ht : t.destinationLoaded = false) (h : row.ReadsCurrency t.db org body) :
    rowOutcome org body currency s row ≠ rowOutcome org body currency t row := by
  obtain ⟨hfalse, htrue⟩ := @importRow_of_reads _ _ _ currency _ h
  rw [(importStep_of_error (s := t) h.1 (by rw [ht]; exact hfalse)).2.2]
  rcases hout : importRow s.db org body currency row s.destinationLoaded with ⟨e, l⟩ | ⟨d, id, l⟩
  · rw [(importStep_of_error h.1 hout).2.2]
    intro he
    rw [hdb, hs] at hout
    exact htrue l (by rw [hout, RowOutcome.failed.inj he])
  · rw [(importStep_of_ok h.1 hout).2.2]
    exact fun he => by cases he

/-- A row that passes over the account leaves it loaded or not as it found it. -/
theorem importStep_of_passesOver (hdb : s.db = t.db) (hs : s.destinationLoaded = true)
    (ht : t.destinationLoaded = false) (hpass : row.PassesOver t.db org body) :
    (importStep org body currency s row).db = t.db ∧
      (importStep org body currency t row).db = t.db ∧
      (importStep org body currency s row).destinationLoaded = true ∧
      (importStep org body currency t row).destinationLoaded = false ∧
      (¬row.ReadsCurrency t.db org body →
        rowOutcome org body currency s row = rowOutcome org body currency t row) := by
  by_cases hskip : row.skip = true
  · obtain ⟨hs₁, hs₂, hs₃⟩ := @importStep_of_skip org body currency row s hskip
    obtain ⟨ht₁, ht₂, ht₃⟩ := @importStep_of_skip org body currency row t hskip
    exact ⟨hs₁.trans hdb, ht₁, hs₂.trans hs, ht₂.trans ht, fun _ => hs₃.trans ht₃.symm⟩
  rw [Bool.not_eq_true] at hskip
  by_cases hreads : row.ReadsCurrency t.db org body
  · obtain ⟨ht₁, ht₂, -⟩ := importStep_of_error (s := t) hskip
      (by rw [ht]; exact (@importRow_of_reads _ _ _ currency _ hreads).1)
    rcases @importRow_of_reads_of_passesOver _ _ _ currency _ hreads hpass with ⟨e, he⟩ | hok
    · obtain ⟨hs₁, hs₂, -⟩ := importStep_of_error (s := s) hskip (by rw [hdb, hs]; exact he)
      exact ⟨hs₁.trans hdb, ht₁, hs₂, ht₂, fun h => absurd hreads h⟩
    · obtain ⟨hs₁, hs₂, -⟩ := importStep_of_ok (s := s) hskip (by rw [hdb, hs]; exact hok)
      exact ⟨hs₁, ht₁, hs₂, ht₂, fun h => absurd hreads h⟩
  · rcases @importRow_of_not_reads _ _ _ currency _ hskip hreads with
      ⟨-, e, he⟩ | ⟨hno, -⟩
    · obtain ⟨hs₁, hs₂, hs₃⟩ := importStep_of_error (s := s) hskip (by rw [hdb]; exact he _)
      obtain ⟨ht₁, ht₂, ht₃⟩ := importStep_of_error (s := t) hskip (he _)
      exact ⟨hs₁.trans hdb, ht₁, hs₂.trans hs, ht₂.trans ht, fun _ => hs₃.trans ht₃.symm⟩
    · exact absurd hpass hno

/-- A row that reads the currency and goes on is a transfer pair, and refers to no row. -/
theorem references_of_reads (hreads : row.ReadsCurrency db org body)
    (hpass : ¬row.PassesOver db org body) : row.references = [] := by
  obtain ⟨-, hreads⟩ := hreads
  rw [ImportConfirmRow.PassesOver, not_or] at hpass
  unfold ImportConfirmRow.references
  cases haction : row.action with
  | create => rfl
  | pairWithExisting => rw [haction] at hreads; exact hreads.elim
  | dropAsDuplicate => rw [haction] at hpass; exact absurd trivial hpass.2
  | createTransferPair => rfl

/-- Two states that differ only in whether the destination account is loaded come to the same,
unless that matters. -/
theorem sameOutcomes_iff (hdb : s.db = t.db) (hs : s.destinationLoaded = true)
    (ht : t.destinationLoaded = false) :
    SameOutcomes org body currency ids s t rows ↔ ¬LoadMatters t.db org body ids rows := by
  induction rows generalizing s t with
  | nil => exact iff_of_true sameOutcomes_nil id
  | cons row rows ih =>
    rw [sameOutcomes_cons, LoadMatters, not_or]
    by_cases hpass : row.PassesOver t.db org body
    · obtain ⟨hs₁, ht₁, hs₂, ht₂, hout⟩ :=
        @importStep_of_passesOver _ _ currency _ _ _ hdb hs ht hpass
      rw [ih (hs₁.trans ht₁.symm) hs₂ ht₂, ht₁]
      refine and_congr ?_ (by rw [and_iff_right hpass])
      by_cases hreads : row.ReadsCurrency t.db org body
      · rw [and_iff_right hreads]
        exact ⟨fun h hids => rowOutcome_ne_of_reads hdb hs ht hreads (h hids),
          fun h hids => absurd hids h⟩
      · exact iff_of_true (fun _ => hout hreads) fun h => hreads h.1
    · by_cases hreads : row.ReadsCurrency t.db org body
      · have hids : ∀ i ∈ ids, i ∉ row.references := by
          rw [references_of_reads hreads hpass]
          exact fun _ _ => List.not_mem_nil
        exact iff_of_false (fun h => rowOutcome_ne_of_reads hdb hs ht hreads (h.1 hids))
          fun h => h.1 ⟨hreads, hids⟩
      · refine iff_of_true ?_ ⟨fun h => hreads h.1, fun h => hpass h.1⟩
        have hskip : row.skip = false := by
          rw [← Bool.not_eq_true]
          exact fun h => hpass (.inl h)
        rcases @importRow_of_not_reads _ _ _ currency _ hskip hreads with
          ⟨hpass', -⟩ | ⟨-, heq⟩
        · exact absurd hpass' hpass
        · obtain ⟨hdb', hloaded', hout⟩ := @importStep_congr _ _ currency _ s t
            hdb (by rw [hs, ht]; exact heq) fun h => by rw [hskip] at h; cases h
          exact ⟨fun _ => hout, sameOutcomes_of_eq hdb' hloaded'⟩

/-- The same, whichever of the two states has the destination account loaded. -/
theorem sameOutcomes_iff_of_ne (hdb : s.db = t.db)
    (hne : s.destinationLoaded ≠ t.destinationLoaded) :
    SameOutcomes org body currency ids s t rows ↔ ¬LoadMatters t.db org body ids rows := by
  cases hs : s.destinationLoaded with
  | true =>
    have ht : t.destinationLoaded = false := by
      rw [← Bool.not_eq_true]
      exact fun ht => hne (hs.trans ht.symm)
    exact sameOutcomes_iff hdb hs ht
  | false =>
    have ht : t.destinationLoaded = true := by
      rw [← Bool.not_eq_false]
      exact fun ht => hne (hs.trans ht.symm)
    have hiff := @sameOutcomes_iff org body currency ids _ _ rows hdb.symm ht hs
    rw [← hdb, ← hiff]
    exact ⟨SameOutcomes.symm, SameOutcomes.symm⟩

end Reading

/-! ### What the answer promises -/

/-- A batch that was just opened counts the rows linked to it. -/
theorem Db.AfterImport.rowCount {db : Db} {org b : ℕ} (h : db.AfterImport org b) :
    ∃ batch, db.importBatch? b org = some batch ∧
      batch.rowCount = (db.transactions.rows.countP fun t => t.importBatchId = some b : ℕ) := by
  obtain ⟨_, hfresh⟩ := h.freshBatch
  have hlinked : (db.transactions.rows.countP fun t => t.importBatchId = some b) =
      acceptedRows db b := by
    refine List.countP_congr fun t ht => ?_
    have haccepted := hfresh.accepted (Table.get?_of_mem ht)
    simp only [decide_eq_true_eq]
    exact ⟨fun hb => ⟨hb, haccepted hb⟩, And.left⟩
  obtain ⟨db₀, user, account, format, fileName, ids, hwf, hnodup, himported, hcreate⟩ := h
  obtain ⟨rfl, batch, hf, horg, hrows, -, -, rfl⟩ := createImportBatch_ok hcreate
  refine ⟨{ batch with id := db₀.importBatches.next }, ?_, ?_⟩
  · exact Option.filter_eq_some_iff.mpr ⟨Table.get?_insert_next _ _, by simpa using horg⟩
  · rw [hlinked, acceptedRows, Db.count_assignBatch hwf hnodup himported hf]
    exact hrows

theorem importBatchOf_length {org : ℕ} {body : ImportConfirmRequest} {userId b : Option ℕ}
    {s : ImportState} {db : Db} (h : importBatchOf org body userId s = .ok (db, b)) :
    db.transactions.rows.length = s.db.transactions.rows.length := by
  unfold importBatchOf at h
  split at h
  · rw [pure_eq_ok, Prod.mk.injEq] at h
    rw [h.1]
  · split_ifs at h
    · rw [pure_eq_ok, Prod.mk.injEq] at h
      rw [h.1]
    · simp only [bind_eq_ok, Prod.exists, pure_eq_ok, Prod.mk.injEq] at h
      obtain ⟨d, batchId, hcreate, rfl, -⟩ := h
      obtain ⟨-, _, _, -, -, -, -, rfl⟩ := createImportBatch_ok hcreate
      exact List.length_map _

/-- The currency of the account of an import. -/
def Db.destinationCurrency (db : Db) (body : ImportConfirmRequest) : String :=
  (db.currencyOf body.accountId).getD ""

/-- No failing row changes whether the destination account is loaded for a later row whose outcome
depends on it. -/
def Db.Undisturbed (db : Db) (org : ℕ) (body : ImportConfirmRequest) : Prop :=
  ∀ pre row post, body.rows = pre ++ row :: post → row.skip = false →
    let s := pre.foldl (importStep org body (db.destinationCurrency body)) { db := db }
    ∀ e loaded, importRow s.db org body (db.destinationCurrency body) row s.destinationLoaded =
      .error (e, loaded) → loaded ≠ s.destinationLoaded →
        ¬LoadMatters s.db org body row.references post

namespace Books

variable {normalizeDescription : String → String} {books books' : Books} {org : ℕ}
  {body : ImportConfirmRequest} {userId : Option ℕ} {response : ImportConfirmResponse}

/-- The variables of the loop and the rules after some rows of an import. -/
def importedAfter (normalizeDescription : String → String) (books : Books) (org : ℕ)
    (body : ImportConfirmRequest) (rows : List ImportConfirmRow) :
    ImportState × Table CategoryRule :=
  rows.foldl (importStep normalizeDescription org body (books.destinationCurrency body))
    ({ db := books.toDb }, books.categoryRules)

/-- What the rows of an import of an organisation end in. -/
def importOutcomes (books : Books) (org : ℕ) (body : ImportConfirmRequest) : List RowOutcome :=
  outcomes org body (books.destinationCurrency body) { db := books.toDb } body.rows

/-- What the answer of an import promises: the counts add up to the rows of the request, the stored
rows to the counts, and the rows of the batch to its own; a failing row leaves nothing behind and
does not change the outcome of a row that refers to other transactions. -/
structure ImportAccounted (normalizeDescription : String → String) (books : Books) (org : ℕ)
    (body : ImportConfirmRequest) (books' : Books) (response : ImportConfirmResponse) : Prop where
  counts : response.importedCount + response.pairedCount + response.droppedDuplicateCount +
    response.skippedCount + response.errorCount = body.rows.length
  stored : books'.transactions.rows.length = books.transactions.rows.length +
    response.importedCount + (books.importOutcomes org body).count (.done .pairWithExisting) +
    2 * (books.importOutcomes org body).count (.done .createTransferPair)
  batch : ∀ b ∈ response.importId, ∃ batch, books'.importBatch? b org = some batch ∧
    batch.rowCount = (books'.transactions.rows.countP fun t => t.importBatchId = some b : ℕ)
  undone : ∀ pre row post e, body.rows = pre ++ row :: post →
    let s := importedAfter normalizeDescription books org body pre
    let s' := importedAfter normalizeDescription books org body (pre ++ [row])
    rowOutcome org body (books.destinationCurrency body) s.1 row = .failed e →
      s'.1.db = s.1.db ∧ s'.1.importedTransactionIds = s.1.importedTransactionIds ∧ s'.2 = s.2
  isolated : ∀ pre row post e, body.rows = pre ++ row :: post →
    let s := importedAfter normalizeDescription books org body pre
    let s' := importedAfter normalizeDescription books org body (pre ++ [row])
    rowOutcome org body (books.destinationCurrency body) s.1 row = .failed e →
      SameOutcomes org body (books.destinationCurrency body) row.references s'.1 s.1 post

/-- What an import did, in terms of its loop. -/
theorem executeImport_ok
    (h : books.executeImport normalizeDescription org body userId = .ok (books', response)) :
    let s := importedAfter normalizeDescription books org body body.rows
    ∃ db importId, importBatchOf org body userId s.1 = .ok (db, importId) ∧
      books' = { books with toDb := db, categoryRules := s.2 } ∧
      response =
        { importedCount := s.1.importedCount
          pairedCount := s.1.pairedCount
          droppedDuplicateCount := s.1.droppedDuplicateCount
          skippedCount := s.1.skippedCount
          errorCount := s.1.errors.length
          errors := s.1.errors
          importId := importId } := by
  unfold executeImport at h
  simp only [bind_eq_ok, orRaise_eq_ok, Prod.exists, pure_eq_ok, Prod.mk.injEq] at h
  obtain ⟨account, haccount, db, importId, hbatch, hbooks, hresponse⟩ := h
  have hcurrency : books.destinationCurrency body = account.currency := by
    rw [Db.destinationCurrency, Db.currencyOf, (Db.account?_eq_some.mp haccount).1]
    rfl
  unfold importedAfter
  rw [hcurrency]
  exact ⟨db, importId, hbatch, hbooks.symm, hresponse.symm⟩

theorem importedAfter_fst (pre : List ImportConfirmRow) :
    (importedAfter normalizeDescription books org body pre).1 =
      pre.foldl (Pfv.importStep org body (books.destinationCurrency body)) { db := books.toDb } :=
  foldl_importStep_fst _ _ _ _ _

theorem importedAfter_concat (pre : List ImportConfirmRow) (row : ImportConfirmRow) :
    importedAfter normalizeDescription books org body (pre ++ [row]) =
      importStep normalizeDescription org body (books.destinationCurrency body)
        (importedAfter normalizeDescription books org body pre) row := by
  rw [importedAfter, List.foldl_append, List.foldl_cons, List.foldl_nil]
  rfl

/-- The counts of an answer add up to the rows of the request. -/
theorem executeImport_counts
    (h : books.executeImport normalizeDescription org body userId = .ok (books', response)) :
    response.importedCount + response.pairedCount + response.droppedDuplicateCount +
      response.skippedCount + response.errorCount = body.rows.length := by
  obtain ⟨db, importId, -, -, rfl⟩ := executeImport_ok h
  have hcounted := @foldl_importStep_counted org body
    (books.destinationCurrency body) { db := books.toDb } body.rows
  rw [← @importedAfter_fst normalizeDescription] at hcounted
  have hsum := sum_counts_eq_length (books.importOutcomes org body)
  rw [importOutcomes, length_outcomes] at hsum
  dsimp only
  rw [hcounted.imported, hcounted.paired, hcounted.dropped, hcounted.skipped, hcounted.failed]
  simp only [List.length_nil]
  omega

/-- The stored rows of an import add up to its counts. -/
theorem executeImport_stored
    (h : books.executeImport normalizeDescription org body userId = .ok (books', response)) :
    books'.transactions.rows.length = books.transactions.rows.length + response.importedCount +
      (books.importOutcomes org body).count (.done .pairWithExisting) +
      2 * (books.importOutcomes org body).count (.done .createTransferPair) := by
  obtain ⟨db, importId, hbatch, rfl, rfl⟩ := executeImport_ok h
  have hcounted := @foldl_importStep_counted org body
    (books.destinationCurrency body) { db := books.toDb } body.rows
  rw [← @importedAfter_fst normalizeDescription] at hcounted
  have hstored := hcounted.stored
  rw [sum_stored_eq] at hstored
  dsimp only [importOutcomes] at hstored ⊢
  rw [importBatchOf_length hbatch, hstored, hcounted.imported]
  dsimp only
  omega

/-- The batch of an import counts its rows. -/
theorem executeImport_batch (hwf : books.WellFormed)
    (h : books.executeImport normalizeDescription org body userId = .ok (books', response)) {b : ℕ}
    (hb : response.importId = some b) : ∃ batch, books'.importBatch? b org = some batch ∧
      batch.rowCount = (books'.transactions.rows.countP fun t => t.importBatchId = some b : ℕ) := by
  have hledger : Pfv.executeImport books.toDb org body userId = .ok (books'.toDb, response) := by
    rw [← @executeImport_ledger normalizeDescription, h]
    rfl
  exact (afterImport_of_executeImport hwf hledger hb).rowCount

/-- A failing row leaves the ledger, the rows of the batch and the rules as they were. -/
theorem importStep_undone {currency : String} {s : ImportState × Table CategoryRule}
    {row : ImportConfirmRow} {e : ServiceError}
    (h : rowOutcome org body currency s.1 row = .failed e) :
    (importStep normalizeDescription org body currency s row).1.db = s.1.db ∧
      (importStep normalizeDescription org body currency s row).1.importedTransactionIds =
        s.1.importedTransactionIds ∧
      (importStep normalizeDescription org body currency s row).2 = s.2 := by
  obtain ⟨loaded, -, hstep⟩ := importStep_of_failed h
  unfold importStep
  rw [h, if_neg (by simp), hstep]
  exact ⟨rfl, rfl, rfl⟩

/-- An import keeps what its answer promises when no failing row disturbs a later one, and only
then. -/
theorem importAccounted_iff (hwf : books.WellFormed)
    (h : books.executeImport normalizeDescription org body userId = .ok (books', response)) :
    ImportAccounted normalizeDescription books org body books' response ↔
      books.Undisturbed org body := by
  constructor
  · intro haccounted pre row post hrows hskip s e loaded hrow hne
    obtain ⟨hdb, hloaded, hout⟩ := importStep_of_error hskip hrow
    have hsame := haccounted.isolated pre row post e hrows (by rw [importedAfter_fst]; exact hout)
    rw [importedAfter_concat, importStep_fst, importedAfter_fst] at hsame
    exact (sameOutcomes_iff_of_ne hdb (hloaded.trans_ne hne)).mp hsame
  · intro hundisturbed
    refine ⟨executeImport_counts h, executeImport_stored h, fun b hb =>
      executeImport_batch hwf h hb,
      fun pre row post e _ hfailed => ?_, fun pre row post e hrows hfailed => ?_⟩
    · rw [importedAfter_concat]
      exact importStep_undone hfailed
    · rw [importedAfter_fst] at hfailed
      rw [importedAfter_concat, importStep_fst, importedAfter_fst]
      obtain ⟨loaded, hrow, -⟩ := importStep_of_failed hfailed
      have hskip : row.skip = false := by
        rw [← Bool.not_eq_true]
        intro hskip
        rw [(importStep_of_skip hskip).2.2] at hfailed
        exact absurd hfailed (by simp)
      obtain ⟨hdb, hloaded, -⟩ := importStep_of_error hskip hrow
      by_cases hne : loaded = ImportState.destinationLoaded (pre.foldl
          (Pfv.importStep org body (books.destinationCurrency body)) { db := books.toDb })
      · exact sameOutcomes_of_eq hdb (hloaded.trans hne)
      · exact (sameOutcomes_iff_of_ne hdb (hloaded.trans_ne hne)).mpr
          (hundisturbed pre row post hrows hskip e loaded hrow hne)

end Books

/-! ### Sample imports -/

/-- Two accounts and no rows. -/
def sampleTwoAccounts : Books where
  toDb := serveAll Request.step sampleDb [sampleAccount "Checking", sampleAccount "Savings"]
  categoryRules := .empty
  budgets := .empty
  forecastPlans := .empty
  forecastPlanItems := .empty

/-- A row that pairs with a transaction that does not exist. -/
def samplePairRow : ImportConfirmRow :=
  { rowNumber := 1, date := sampleDate, description := "Rent", amount := 10, type := .expense
    action := .pairWithExisting, pairWithTransactionId := some 99, amount_pos := sampleRow_pos }

/-- A row that creates both legs of a transfer to the second account. -/
def sampleTransferRow : ImportConfirmRow :=
  { rowNumber := 2, date := sampleDate, description := "To savings", amount := 25, type := .expense
    action := .createTransferPair, partnerAccountId := some 2, amount_pos := by norm_num }

def sampleConfirm (rows : List ImportConfirmRow) : ImportConfirmRequest :=
  { accountId := 1, defaultCategoryId := 1, rows := rows, fileName := "bank.csv"
    sourceFormat := .csv, fileName_range := sampleFileName_range }

theorem sampleTwoAccounts_wellFormed : sampleTwoAccounts.WellFormed :=
  @Db.ReachableBy.wellFormed (fun _ => True) _
    ⟨sampleDb, _, sampleDb_seeded, fun _ _ => trivial, rfl⟩

/-- When the failing row comes last, the import keeps what it answers. -/
theorem importAccounted_of_sampleLast :
    ∃ books' response, sampleTwoAccounts.WellFormed ∧
      sampleTwoAccounts.executeImport (fun s => s) 1
        (sampleConfirm [sampleTransferRow, samplePairRow]) (some 1) = .ok (books', response) ∧
      sampleTwoAccounts.ImportAccounted (fun s => s) 1
        (sampleConfirm [sampleTransferRow, samplePairRow]) books' response := by
  obtain ⟨⟨books', response⟩, h⟩ := exists_of_isOk (x := sampleTwoAccounts.executeImport
    (fun s => s) 1 (sampleConfirm [sampleTransferRow, samplePairRow]) (some 1)) (by decide +kernel)
  refine ⟨books', response, sampleTwoAccounts_wellFormed, h,
    (Books.importAccounted_iff sampleTwoAccounts_wellFormed h).mpr ?_⟩
  intro pre row post hrows hskip s e loaded hrow hne
  rcases List.cons_eq_append_iff.mp hrows with ⟨rfl, hcons⟩ | ⟨mid, rfl, htail⟩
  · -- The transfer goes through.
    obtain ⟨rfl, -⟩ := List.cons.inj hcons
    have hok : (importRow sampleTwoAccounts.toDb 1
        (sampleConfirm [sampleTransferRow, samplePairRow])
        (sampleTwoAccounts.destinationCurrency (sampleConfirm [sampleTransferRow, samplePairRow]))
        sampleTransferRow true).isOk = true := by decide +kernel
    rw [show importRow sampleTwoAccounts.toDb 1 _ _ sampleTransferRow true = _ from hrow] at hok
    cases hok
  · -- No row comes after the other one.
    rcases List.cons_eq_append_iff.mp htail with ⟨rfl, hcons⟩ | ⟨mid', rfl, hnil⟩
    · obtain ⟨-, rfl⟩ := List.cons.inj hcons
      exact id
    · simp at hnil

/-- When it comes first, the rollback expires the destination account and the transfer fails with
it, which refers to no transaction at all. -/
theorem not_importAccounted_of_sampleFirst :
    ∃ books' response, sampleTwoAccounts.executeImport (fun s => s) 1
        (sampleConfirm [samplePairRow, sampleTransferRow]) (some 1) = .ok (books', response) ∧
      ¬sampleTwoAccounts.ImportAccounted (fun s => s) 1
        (sampleConfirm [samplePairRow, sampleTransferRow]) books' response := by
  obtain ⟨⟨books', response⟩, h⟩ := exists_of_isOk (x := sampleTwoAccounts.executeImport
    (fun s => s) 1 (sampleConfirm [samplePairRow, sampleTransferRow]) (some 1)) (by decide +kernel)
  refine ⟨books', response, h, fun haccounted => ?_⟩
  have hsame := haccounted.isolated [] samplePairRow [sampleTransferRow]
    (.conflict "Partner row no longer exists; re-preview") rfl (by decide +kernel)
  have hne : rowOutcome 1 (sampleConfirm [samplePairRow, sampleTransferRow])
      (sampleTwoAccounts.destinationCurrency (sampleConfirm [samplePairRow, sampleTransferRow]))
      (Books.importedAfter (fun s => s) sampleTwoAccounts 1
        (sampleConfirm [samplePairRow, sampleTransferRow]) [samplePairRow]).1 sampleTransferRow =
        .failed .missingGreenlet ∧
    rowOutcome 1 (sampleConfirm [samplePairRow, sampleTransferRow])
      (sampleTwoAccounts.destinationCurrency (sampleConfirm [samplePairRow, sampleTransferRow]))
      (Books.importedAfter (fun s => s) sampleTwoAccounts 1
        (sampleConfirm [samplePairRow, sampleTransferRow]) []).1 sampleTransferRow =
        .done .createTransferPair := by decide +kernel
  have heq := hsame [] sampleTransferRow [] rfl (by decide)
  exact absurd (hne.1.symm.trans (heq.trans hne.2)) (by simp)

end Pfv
