import Pfv.Base.Session
import Pfv.Services.Transactions
import Pfv.Services.Transfers

/-!
# Requests on transfer pairs that interleave

The operations of `backend/app/services/transaction_service.py` that read a row, lock what they have
read it to be linked to, and decide from the locked rows: update, delete, bulk delete, convert and
unpair. The first read takes no lock, so other requests may commit before the locks are there. What
follows the locks is one step, and so is the pairing of two given rows, which reads nothing before.

## Main definitions

* `PairTask`: the requests; `PairTask.preview`: their unlocked reads.
* `PairPlan`: a request with the rows it is going to lock; `PairPlan.write`: the locked step.
* `pairSystem`: the two steps of a request.
-/

namespace Pfv

/-- The requests that follow, create or break a link. -/
inductive PairTask
  | update (org id : ℕ) (body : TransactionUpdate) (today : Date)
  | delete (org id : ℕ)
  | bulkDelete (org : ℕ) (ids : List ℕ)
  | pair (org expenseTxId incomeTxId : ℕ) (recategorize : Bool) (transferCategoryId : Option ℕ)
  | convert (org sourceTxId destinationAccountId : ℕ) (recategorize : Bool)
      (transferCategoryId : Option ℕ)
  | unpair (org id expenseFallbackCategoryId incomeFallbackCategoryId : ℕ)

/-- A request after its unlocked reads, with the ids that it has found. -/
inductive PairPlan
  | update (org id : ℕ) (body : TransactionUpdate) (today : Date) (ids : List ℕ)
  | delete (org id : ℕ) (ids : List ℕ)
  | bulkDelete (org : ℕ) (requested ids : List ℕ)
  | pair (org expenseTxId incomeTxId : ℕ) (recategorize : Bool) (transferCategoryId : Option ℕ)
  | convert (org sourceTxId destinationAccountId : ℕ) (recategorize : Bool)
      (transferCategoryId : Option ℕ)
  | unpair (org id linked expenseFallbackCategoryId incomeFallbackCategoryId : ℕ)

/-- The unlocked reads of a request. -/
def PairTask.preview (db : Db) : PairTask → Except ServiceError PairPlan
  | .update org id body today => do
      let ids ← pairPreview db org id
      pure (.update org id body today ids)
  | .delete org id => do
      let ids ← pairPreview db org id
      pure (.delete org id ids)
  | .bulkDelete org ids =>
      pure (.bulkDelete org ids.eraseDups (bulkDeletePreview db org ids.eraseDups))
  | .pair org expenseTxId incomeTxId recategorize transferCategoryId =>
      pure (.pair org expenseTxId incomeTxId recategorize transferCategoryId)
  | .convert org sourceTxId destinationAccountId recategorize transferCategoryId => do
      convertPreview db org sourceTxId destinationAccountId
      pure (.convert org sourceTxId destinationAccountId recategorize transferCategoryId)
  | .unpair org id expenseFallbackCategoryId incomeFallbackCategoryId => do
      let linked ← unpairPreview db org id expenseFallbackCategoryId incomeFallbackCategoryId
      pure (.unpair org id linked expenseFallbackCategoryId incomeFallbackCategoryId)

/-- The locked step of a request. A bulk delete that has found no row ends there. -/
def PairPlan.write (db : Db) : PairPlan → Except ServiceError Db
  | .update org id body today ids => Prod.fst <$> updateTransactionLocked db org id body today ids
  | .delete org id ids => deleteTransactionLocked db org id ids
  | .bulkDelete org requested ids =>
      if ids = [] then pure db else Prod.fst <$> bulkDeleteLocked db org requested ids
  | .pair org expenseTxId incomeTxId recategorize transferCategoryId =>
      pairExistingTransactions db org expenseTxId incomeTxId recategorize transferCategoryId
  | .convert org sourceTxId destinationAccountId recategorize transferCategoryId =>
      convertLocked db org sourceTxId destinationAccountId recategorize transferCategoryId
  | .unpair org id linked expenseFallbackCategoryId incomeFallbackCategoryId =>
      unpairLocked db org id linked expenseFallbackCategoryId incomeFallbackCategoryId

/-- The rows that a request names. -/
def PairPlan.named : PairPlan → List ℕ
  | .update _ id _ _ _ => [id]
  | .delete _ id _ => [id]
  | .bulkDelete _ requested _ => requested
  | .pair _ expenseTxId incomeTxId _ _ => [expenseTxId, incomeTxId]
  | .convert _ sourceTxId _ _ _ => [sourceTxId]
  | .unpair _ id _ _ _ => [id]

/-- The requests as an unlocked read and a locked step. -/
def pairSystem : TwoStep Db PairTask PairPlan ServiceError where
  check db r := (db, ·) <$> r.preview db
  commit db p := p.write db

end Pfv
