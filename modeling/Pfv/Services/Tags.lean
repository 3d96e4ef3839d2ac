import Pfv.Base.Session
import Pfv.Models.Tags

/-!
# Tag service

Creating tags with their contribution to the shared dictionary
(`backend/app/services/tag_service.py`), and what the wipe of an organisation does to tags
(`backend/app/services/org_data_service.py`). A request is one database transaction. Its plain reads
see the snapshot of its first read, its inserts and updates see the latest committed rows and keep
their locks up to the commit, and what it wrote is visible to others from the commit on. So a
session here carries the snapshot, the writes it has staged and the locks it holds, and advances by
one statement at a time.

## Main definitions

* `Contribution`, `Wipe`, `TagWrite.apply`: what a session stages, and its effect.
* `TagPhase`: where a session stands; `tagSystem`: how it advances.
-/

namespace Pfv

/-! ### Staged writes -/

/-- What a session writes to the dictionary for one new tag: the rows it inserted, and the counts it
computed from the dictionary row in its memory. -/
structure Contribution where
  org : ℕ
  name : String
  entryIsNew : Bool
  contributorIsNew : Bool
  contributorOrgCount : ℤ
  usageCount : ℤ

/-- What the wipe of an organisation writes: the dictionary tags whose count it lowers. -/
structure Wipe where
  org : ℕ
  ids : List ℕ

inductive TagWrite
  | tag (t : Tag)
  | contribution (c : Contribution)
  | transactionTags (org transactionId : ℕ) (names : List String)
  | wipe (w : Wipe)

namespace TagStore

/-- Insert a tag; its name must be free in the organisation. -/
def insertTag (store : TagStore) (t : Tag) : Except ServiceError TagStore := do
  raiseIf (store.tag? t.orgId t.nameNormalized ≠ none) (.database "IntegrityError")
  pure { store with tags := store.tags.insert t }

/-- Insert a dictionary tag nobody has contributed or used; its name must be free. -/
def insertEntry (store : TagStore) (name : String) : Except ServiceError TagStore := do
  raiseIf (store.entry? name ≠ none) (.database "IntegrityError")
  pure { store with dictionary := store.dictionary.insert { nameNormalized := name } }

/-- Insert a contributor row; there must be none for the dictionary tag and the organisation. -/
def insertContributor (store : TagStore) (dictionaryTagId org : ℕ) :
    Except ServiceError TagStore := do
  raiseIf (store.HasContributor dictionaryTagId org) (.database "IntegrityError")
  pure { store with
    contributors := store.contributors.insert
      { dictionaryTagId := dictionaryTagId, contributorOrgId := org } }

/-- Write the counts of a dictionary tag: the values the session computed. -/
def writeCounts (store : TagStore) (id : ℕ) (contributorOrgCount : Option ℤ) (usageCount : ℤ) :
    TagStore :=
  { store with
    dictionary := store.dictionary.modify id
      (fun e => { e with
        contributorOrgCount := contributorOrgCount.getD e.contributorOrgCount
        usageCount := usageCount }) fun _ => rfl }

/-- Lower the contributor count of a dictionary tag in the database. -/
def decrement (store : TagStore) (id : ℕ) : TagStore :=
  { store with
    dictionary := store.dictionary.modify id
      (fun e => { e with contributorOrgCount := e.contributorOrgCount - 1 }) fun _ => rfl }

/-- Delete the contributor rows of an organisation. -/
def deleteContributors (store : TagStore) (org : ℕ) : TagStore :=
  { store with contributors := store.contributors.filter (·.contributorOrgId ≠ org) }

/-- Delete the tags of an organisation with their transactions. -/
def deleteTags (store : TagStore) (org : ℕ) : TagStore :=
  { store with
    tags := store.tags.filter (·.orgId ≠ org)
    transactionTags := store.transactionTags.filter fun j =>
      ((store.tags.get? j.tagId).filter (·.orgId = org)).isNone }

/-- Replace the tags of a transaction. -/
def replaceTransactionTags (store : TagStore) (org transactionId : ℕ) (names : List String) :
    Except ServiceError TagStore := do
  let tags ← names.mapM fun n => orRaise (store.tag? org n) (.database "IntegrityError")
  pure { store with
    transactionTags := (tags.map fun t => { transactionId := transactionId, tagId := t.id }).foldl
      Table.insert (store.transactionTags.filter (·.transactionId ≠ transactionId)) }

/-- The dictionary row of a contribution, when it is new. -/
def contributeEntry (store : TagStore) (c : Contribution) : Except ServiceError TagStore :=
  if c.entryIsNew then store.insertEntry c.name else pure store

/-- The contributor row of a contribution, when it is new. -/
def contributeRow (store : TagStore) (dictionaryTagId : ℕ) (c : Contribution) :
    Except ServiceError TagStore :=
  if c.contributorIsNew then store.insertContributor dictionaryTagId c.org else pure store

/-- The dictionary rows of a contribution, and the counts it computed. -/
def contribute (store : TagStore) (c : Contribution) : Except ServiceError TagStore := do
  let listed ← store.contributeEntry c
  let e ← orRaise (listed.entry? c.name) (.database "NoResultFound")
  let joined ← listed.contributeRow e.id c
  pure (joined.writeCounts e.id
    (if c.contributorIsNew then some (c.contributorOrgCount + 1) else none) (c.usageCount + 1))

end TagStore

/-- The effect of a staged write when its session commits. -/
def TagWrite.apply (store : TagStore) : TagWrite → Except ServiceError TagStore
  | .tag t => store.insertTag t
  | .contribution c => store.contribute c
  | .transactionTags org transactionId names =>
      store.replaceTransactionTags org transactionId names
  | .wipe w => pure (((w.ids.foldl TagStore.decrement store).deleteContributors w.org).deleteTags
      w.org)

/-! ### Sessions -/

/-- `TagCreate`. -/
structure TagCreate where
  name : String
  pos : 1 ≤ name.length
  length_le : name.length ≤ tagNameMaxLength

/-- `MAX_TAGS_PER_TRANSACTION`. -/
def maxTagsPerTransaction : ℕ := 5

/-- `TransactionTagSetReplace`. -/
structure TransactionTagSetReplace where
  tagNames : List String
  length_le : tagNames.length ≤ maxTagsPerTransaction

inductive TagRequest
  | create (org user : ℕ) (body : TagCreate)
  | setTags (org user transactionId : ℕ) (body : TransactionTagSetReplace)
  | wipe (org : ℕ)

/-- The rows a session keeps locked: a tag of an organisation, a dictionary tag, a contributor row,
and the contributor rows or the tags of a whole organisation. -/
inductive TagLock
  | tag (org : ℕ) (name : String)
  | entry (name : String)
  | contributor (name : String) (org : ℕ)
  | contributorsOf (org : ℕ)
  | tagsOf (org : ℕ)
  deriving DecidableEq

/-- A new tag: its normalized name and the name as it is shown. -/
structure NewTag where
  nameNormalized : String
  name : String

/-- What a session carries: its snapshot, the tags it has to create, the transaction whose tags it
replaces, its staged writes and its locks. -/
structure TagTxn where
  snapshot : TagStore
  org : ℕ
  user : Option ℕ := none
  todo : List NewTag := []
  transactionTags : Option (ℕ × List String) := none
  staged : List TagWrite := []
  own : List TagLock := []

inductive TagPhase
  | begin (r : TagRequest)
  | tagging (t : TagTxn)
  | entry (t : TagTxn) (name : String)
  | contributor (t : TagTxn) (c : Contribution)
  | counting (t : TagTxn) (c : Contribution)
  | decrementing (t : TagTxn) (w : Wipe) (todo : List ℕ)
  | deletingContributors (t : TagTxn) (w : Wipe)
  | deletingTags (t : TagTxn)
  | committing (t : TagTxn)

/-- A session that keeps another lock. -/
def TagTxn.lock (t : TagTxn) (l : TagLock) : TagTxn := { t with own := l :: t.own }

/-- A session that stages another write. -/
def TagTxn.stage (t : TagTxn) (w : TagWrite) : TagTxn := { t with staged := t.staged ++ [w] }

/-- The checks of `create_tag` on its snapshot. -/
def beginCreate [Casing] (store : TagStore) (org user : ℕ) (body : TagCreate) :
    Except ServiceError TagTxn := do
  let nameNormalized ← normalizeTagName body.name
  raiseIf (store.tag? org nameNormalized ≠ none)
    (.conflict s!"Tag '{nameNormalized}' already exists")
  pure
    { snapshot := store
      org := org
      user := user
      todo := [{ nameNormalized := nameNormalized, name := displayTagName body.name }] }

/-- The checks of `set_transaction_tags` on its snapshot, and the tags it has to create. -/
def beginSetTags [Casing] (store : TagStore) (org user transactionId : ℕ)
    (body : TransactionTagSetReplace) : Except ServiceError TagTxn := do
  let _ ← orRaise ((store.transactions.get? transactionId).filter (·.orgId = org))
    (.notFound "transaction")
  let raw ← body.tagNames.mapM normalizeTagName
  let normalized := raw.eraseDups
  raiseIf (maxTagsPerTransaction < normalized.length)
    (.validation s!"A transaction may have at most {maxTagsPerTransaction} tags")
  pure
    { snapshot := store
      org := org
      user := user
      todo := (normalized.filter fun n => store.tag? org n = none).map fun n =>
        { nameNormalized := n, name := displayTagName n }
      transactionTags := some (transactionId, normalized) }

/-- The locks of a kind that are held on rows of an organisation. -/
def heldContributors (held : List TagLock) (org : ℕ) : List TagLock :=
  held.filter fun
    | .contributor _ o => o = org
    | _ => false

def heldTags (held : List TagLock) (org : ℕ) : List TagLock :=
  held.filter fun
    | .tag o _ => o = org
    | _ => false

/-- The locks the next statement of a session waits for. -/
def TagPhase.needs (s : Locked TagStore TagLock) : TagPhase → List TagLock
  | .begin _ => []
  | .tagging t => (t.todo.head?.map fun n => [.tag t.org n.nameNormalized, .tagsOf t.org]).getD []
  | .entry t name => if (t.snapshot.entry? name).isSome then [] else [.entry name]
  | .contributor _ c => [.contributor c.name c.org, .contributorsOf c.org]
  | .counting _ c => [.entry c.name]
  | .decrementing _ _ todo =>
      (todo.head?.bind s.state.dictionary.get?).elim [] fun e => [.entry e.nameNormalized]
  | .deletingContributors _ w => .contributorsOf w.org :: heldContributors s.held w.org
  | .deletingTags t => .tagsOf t.org :: heldTags s.held t.org
  | .committing _ => []

def TagPhase.own : TagPhase → List TagLock
  | .begin _ => []
  | .tagging t => t.own
  | .entry t _ => t.own
  | .contributor t _ => t.own
  | .counting t _ => t.own
  | .decrementing t _ _ => t.own
  | .deletingContributors t _ => t.own
  | .deletingTags t => t.own
  | .committing t => t.own

/-- The first read of a request takes its snapshot. -/
def TagRequest.begin [Casing] (store : TagStore) : TagRequest → Except ServiceError TagPhase
  | .create org user body => (beginCreate store org user body).map .tagging
  | .setTags org user transactionId body =>
      (beginSetTags store org user transactionId body).map .tagging
  | .wipe org =>
      let ids := store.contributedIds org
      pure (.decrementing { snapshot := store, org := org } { org := org, ids := ids } ids)

/-- Once every tag is created, the tags of the transaction are replaced. -/
def TagTxn.finish (t : TagTxn) : TagTxn :=
  match t.transactionTags with
  | some (transactionId, names) => t.stage (.transactionTags t.org transactionId names)
  | none => t

/-- The insert of the next tag; a sharing organisation contributes it when it is generic enough. -/
def insertNext (store : TagStore) (t : TagTxn) (n : NewTag) (rest : List NewTag) :
    Except ServiceError TagPhase := do
  raiseIf (store.tag? t.org n.nameNormalized ≠ none) (.database "IntegrityError")
  let created := (({ t with todo := rest }).lock (.tag t.org n.nameNormalized)).stage
    (.tag
      { orgId := t.org
        name := n.name
        nameNormalized := n.nameNormalized
        createdByUserId := t.user })
  pure (if t.snapshot.sharesTagData t.org ∧ isDictionaryEligible n.nameNormalized then
    .entry created n.nameNormalized else .tagging created)

/-- `_get_or_create_dictionary_row`, and the plain read of `_try_insert_contributor`. A row of the
snapshot is read as it is there, without a lock. Without one the row is inserted; where another
organisation has won that race, the row it committed is read under a lock. -/
def getOrCreateEntry (store : TagStore) (t : TagTxn) (name : String) : TagPhase :=
  match t.snapshot.entry? name with
  | some e =>
      let c : Contribution :=
        { org := t.org
          name := name
          entryIsNew := false
          contributorIsNew := false
          contributorOrgCount := e.contributorOrgCount
          usageCount := e.usageCount }
      if t.snapshot.HasContributor e.id t.org then .counting t c else .contributor t c
  | none =>
      .contributor (t.lock (.entry name))
        { org := t.org
          name := name
          entryIsNew := (store.entry? name).isNone
          contributorIsNew := false
          contributorOrgCount := (store.entry? name).elim 0 (·.contributorOrgCount)
          usageCount := (store.entry? name).elim 0 (·.usageCount) }

/-- The insert of `_try_insert_contributor`: new unless a row was committed in the meantime. -/
def tryInsertContributor (store : TagStore) (t : TagTxn) (c : Contribution) : TagPhase :=
  .counting (t.lock (.contributor c.name c.org))
    { c with
      contributorIsNew := ¬(store.entry? c.name).any fun e => store.HasContributor e.id c.org }

/-- The next statement of a session that is not at its commit. -/
def TagPhase.next [Casing] (store : TagStore) : TagPhase → Except ServiceError TagPhase
  | .begin r => r.begin store
  | .tagging t =>
      match t.todo with
      | [] => pure (.committing t.finish)
      | n :: rest => insertNext store t n rest
  | .entry t name => pure (getOrCreateEntry store t name)
  | .contributor t c => pure (tryInsertContributor store t c)
  | .counting t c => pure (.tagging ((t.lock (.entry c.name)).stage (.contribution c)))
  | .decrementing t w [] => pure (.deletingContributors t w)
  | .decrementing t w (i :: rest) =>
      pure (.decrementing
        ((store.dictionary.get? i).elim t fun e => t.lock (.entry e.nameNormalized)) w rest)
  | .deletingContributors t w =>
      pure (.deletingTags ((t.lock (.contributorsOf w.org)).stage (.wipe w)))
  | .deletingTags t => pure (.committing (t.lock (.tagsOf t.org)))
  | .committing t => pure (.committing t)

/-- The writes of a session take effect together, or not at all. -/
def commitWrites (store : TagStore) (staged : List TagWrite) : Except ServiceError TagStore :=
  staged.foldlM TagWrite.apply store

/-- The tag requests of all organisations. A statement that needs a lock another session holds
waits; a session that fails or commits lets its locks go. -/
def tagSystem [Casing] : Sessions (Locked TagStore TagLock) TagRequest TagPhase where
  start := .begin
  advance s p :=
    if Locking.Blocked s p.own (p.needs s) then (s, some p)
    else
      match p with
      | .committing t =>
          ({ state := serve commitWrites s.state t.staged
             held := s.held.filter (· ∉ t.own) }, none)
      | p =>
          match p.next s.state with
          | .ok p' => ({ s with held := p'.own ++ s.held.filter (· ∉ p.own) }, some p')
          | .error _ => ({ s with held := s.held.filter (· ∉ p.own) }, none)

end Pfv
