import Pfv.Services.OrgBootstrap
import Pfv.Services.Balance

/-!
# Categories

Creating, renaming, retyping, moving and deleting categories (`backend/app/routers/categories.py`,
`backend/app/services/category_service.py`). A type change and a delete are each split into the part
that reads and checks, which ends with what is to be written, and the part that writes; the
operation itself is the two in sequence. The audit rows of the operations and the previews are left
out.

## Main definitions

* `validateCategoryTypeChange`: a type change must not strand the rows that use the category.
* `floorCounts`, `assertMinFloorAfterDelete`, `assertMinFloorAfterTypeChange`: the floor of one
  master and one subcategory for income and for expense.
* `createCategory`, `updateCategory`, `moveSubcategory`, `batchMoveSubcategories`,
  `deleteCategoryWithMigration`.
-/

namespace Pfv

/-! ### Request schemas -/

structure CategoryCreate where
  name : String
  type : CategoryType := .both
  parentId : Option ℕ := none

structure CategoryUpdate where
  name : Option String := none
  type : Option CategoryType := none

structure BatchMoveItem where
  subcategoryId : ℕ
  targetParentId : ℕ

/-! ### Reads -/

/-- The subcategories of a category within an organisation. -/
def childrenOf (books : Books) (org id : ℕ) : List Category :=
  books.categories.rows.filter fun c => c.parentId = some id ∧ c.orgId = org

/-- The transactions of an organisation under a category. -/
def transactionsUnder (books : Books) (org id : ℕ) : List Transaction :=
  books.transactions.rows.filter fun t => t.orgId = org ∧ t.categoryId = id

/-- The recurring templates of an organisation under a category. -/
def recurringUnder (books : Books) (org id : ℕ) : List RecurringTransaction :=
  books.recurring.rows.filter fun r => r.orgId = org ∧ r.categoryId = id

/-- The forecast plan items of an organisation under a category. -/
def forecastItemsUnder (books : Books) (org id : ℕ) : List ForecastPlanItem :=
  books.forecastPlanItems.rows.filter fun i => i.orgId = org ∧ i.categoryId = id

/-! ### Type compatibility -/

/-- The type of the rows a one-sided category type does not admit. -/
def CategoryType.excludes : CategoryType → Option EntryType
  | .expense => some .income
  | .income => some .expense
  | .both => none

/-- Count the rows under a category that a new type would not admit: transactions, recurring
templates and forecast plan items. -/
def countIncompatibleForCategory (books : Books) (org id : ℕ) (newType : CategoryType) :
    ℕ × ℕ × ℕ :=
  match newType.excludes with
  | none => (0, 0, 0)
  | some e =>
      (((transactionsUnder books org id).filter (·.type = e.toTransactionType)).length,
        ((recurringUnder books org id).filter (·.type = e)).length,
        ((forecastItemsUnder books org id).filter (·.type = e)).length)

/-- Whether a transfer leg uses a category. -/
def hasTransferLegReference (books : Books) (org id : ℕ) : Bool :=
  (transactionsUnder books org id).any (·.linkedTransactionId.isSome)

def pluralPart (n : ℕ) (one : String) : List String :=
  if n = 0 then [] else [toString n ++ " " ++ one ++ (if n = 1 then "" else "s")]

/-- The parts of a summary joined by commas and a final "and". -/
def joinParts : List String → String
  | [] => ""
  | [a] => a
  | [a, b] => a ++ " and " ++ b
  | parts => String.intercalate ", " parts.dropLast ++ ", and " ++ parts.getLastD ""

def incompatibleSummary (counts : ℕ × ℕ × ℕ) : String :=
  joinParts (pluralPart counts.1 "transaction" ++ pluralPart counts.2.1 "recurring template" ++
    pluralPart counts.2.2 "forecast plan item")

/-- The categories a type change writes: the category and, for a master, its subcategories. -/
def typeChangeTargets (books : Books) (cat : Category) : List ℕ :=
  cat.id :: if cat.parentId = none then (childrenOf books cat.orgId cat.id).map (·.id) else []

/-- Reject a type change that would break existing references. -/
def validateCategoryTypeChange (books : Books) (cat : Category) (newType : CategoryType) :
    Except ServiceError Unit :=
  if newType = cat.type ∨ newType = .both then pure ()
  else do
    let targetIds := typeChangeTargets books cat
    raiseIf (cat.type = .both ∧ hasTransferLegReference books cat.orgId cat.id = true)
      (.validation ("Cannot change category type: this category is referenced by a transfer " ++
        "pair, which requires both income and expense."))
    raiseIf (cat.type = .both ∧ cat.parentId = none ∧
        targetIds.tail.any (hasTransferLegReference books cat.orgId) = true)
      (.validation ("Cannot change category type: a child category is referenced by a transfer " ++
        "pair, which requires both income and expense."))
    let counts := targetIds.map fun id => countIncompatibleForCategory books cat.orgId id newType
    let total := ((counts.map (·.1)).sum, (counts.map (·.2.1)).sum, (counts.map (·.2.2)).sum)
    raiseIf (total ≠ (0, 0, 0))
      (.validation ("Cannot change category type to " ++ newType.value ++ ": " ++
        incompatibleSummary total ++ " reference this category with an incompatible type."))

/-! ### The floor -/

/-- The four counts the floor bounds. -/
structure FloorCounts where
  incomeMasters : ℕ
  incomeSubs : ℕ
  expenseMasters : ℕ
  expenseSubs : ℕ
  deriving DecidableEq

/-- Count the masters of an organisation with a type. -/
def countMasters (cats : Table Category) (org : ℕ) (type : CategoryType) : ℕ :=
  cats.rows.countP fun c => c.orgId = org ∧ c.parentId = none ∧ c.type = type

/-- Whether a row is a subcategory of an organisation whose master has a type. -/
def subOfType (cats : Table Category) (org : ℕ) (type : CategoryType) (c : Category) : Bool :=
  c.orgId = org ∧
    ((c.parentId.bind cats.get?).any fun m => m.orgId = org ∧ m.type = type) = true

/-- Count the subcategories of an organisation by the type of their master. -/
def countSubs (cats : Table Category) (org : ℕ) (type : CategoryType) : ℕ :=
  cats.rows.countP (subOfType cats org type)

def floorCountsForOrg (cats : Table Category) (org : ℕ) : FloorCounts where
  incomeMasters := countMasters cats org .income
  incomeSubs := countSubs cats org .income
  expenseMasters := countMasters cats org .expense
  expenseSubs := countSubs cats org .expense

/-- Reject the delete of a category that would drop the organisation below the floor. -/
def assertMinFloorAfterDelete (books : Books) (org : ℕ) (category : Category) :
    Except ServiceError Unit := do
  let counts := floorCountsForOrg books.categories org
  match category.parentId with
  | none => do
      let childCount := (childrenOf books org category.id).length
      match category.type with
      | .income => do
          raiseIf (counts.incomeMasters ≤ 1) (.conflict "last_in_type")
          raiseIf (counts.incomeSubs ≤ childCount ∧ 0 < counts.incomeSubs)
            (.conflict "last_in_type")
      | .expense => do
          raiseIf (counts.expenseMasters ≤ 1) (.conflict "last_in_type")
          raiseIf (counts.expenseSubs < 1 + childCount) (.conflict "last_in_type")
      | .both => pure ()
  | some parentId =>
      match books.category? parentId org with
      | none => pure ()
      | some master =>
          match master.type with
          | .income => raiseIf (counts.incomeSubs ≤ 1) (.conflict "last_in_type")
          | .expense => raiseIf (counts.expenseSubs ≤ 1) (.conflict "last_in_type")
          | .both => pure ()

/-- Reject a type change that would drop the organisation below the floor. -/
def assertMinFloorAfterTypeChange (books : Books) (org : ℕ) (category : Category)
    (newType : CategoryType) : Except ServiceError Unit := do
  let counts := floorCountsForOrg books.categories org
  if newType = category.type ∨ category.type = .both then pure ()
  else
    match category.parentId with
    | none => do
        let childCount := (childrenOf books org category.id).length
        match category.type with
        | .income => do
            raiseIf (counts.incomeMasters ≤ 1) (.conflict "floor_violation::master::income")
            raiseIf (counts.incomeSubs < 1 + childCount)
              (.conflict "floor_violation::subcategory::income")
        | .expense => do
            raiseIf (counts.expenseMasters ≤ 1) (.conflict "floor_violation::master::expense")
            raiseIf (counts.expenseSubs < 1 + childCount)
              (.conflict "floor_violation::subcategory::expense")
        | .both => pure ()
    | some parentId =>
        match books.category? parentId org with
        | none => pure ()
        | some master =>
            match master.type with
            | .income =>
                raiseIf (newType ≠ .income ∧ counts.incomeSubs ≤ 1)
                  (.conflict "floor_violation::subcategory::income")
            | .expense =>
                raiseIf (newType ≠ .expense ∧ counts.expenseSubs ≤ 1)
                  (.conflict "floor_violation::subcategory::expense")
            | .both => pure ()

/-! ### Create -/

/-- Flush a category: the name column holds 100 characters. -/
def checkCategoryName (name : String) : Except ServiceError Unit :=
  raiseIf (100 < name.length) (.database "categories")

/-- The type of a new category: a subcategory silently inherits the type of its parent. -/
def effectiveType (books : Books) (org : ℕ) (body : CategoryCreate) :
    Except ServiceError CategoryType :=
  match body.parentId with
  | none => pure body.type
  | some p => do
      let parentCat ← orRaise (books.category? p org) (.httpException 400 "Invalid parent category")
      raiseIf (parentCat.parentId.isSome = true)
        (.httpException 400 "Cannot nest more than two levels")
      pure parentCat.type

def createCategory (books : Books) (org : ℕ) (body : CategoryCreate) :
    Except ServiceError Books := do
  let type ← effectiveType books org body
  checkCategoryName body.name
  let cat : Category := { orgId := org, parentId := body.parentId, name := body.name, type := type }
  pure { books with categories := books.categories.insert cat }

/-! ### Update -/

/-- What an update writes once its checks have passed: the new name and type, when they change, and
the subcategories the type is carried to. -/
structure UpdatePlan where
  id : ℕ
  newName : Option String
  newType : Option CategoryType
  childIds : List ℕ
  deriving DecidableEq

/-- A new type of a subcategory must be the type of its parent. -/
def checkSubcategoryType (books : Books) (org : ℕ) (cat : Category) (type : Option CategoryType) :
    Except ServiceError Unit :=
  match cat.parentId with
  | none => pure ()
  | some p =>
      raiseIf (type.any (fun t => t ≠ cat.type ∧
          (books.category? p org).map (·.type) ≠ some t) = true)
        (.httpException 400
          "Subcategory type must match its parent. Update the master category instead.")

/-- The reads and checks of an update. -/
def updateCategoryCheck (books : Books) (org id : ℕ) (body : CategoryUpdate) :
    Except ServiceError UpdatePlan := do
  let cat ← orRaise (books.category? id org) (.httpException 404 "Category not found")
  checkSubcategoryType books org cat body.type
  let newName := body.name.filter (· ≠ cat.name)
  match body.type.filter (· ≠ cat.type) with
  | none => pure ⟨cat.id, newName, none, []⟩
  | some newType => do
      validateCategoryTypeChange books cat newType
      assertMinFloorAfterTypeChange books org cat newType
      pure ⟨cat.id, newName, some newType, (typeChangeTargets books cat).tail⟩

/-- A row after an update. -/
def UpdatePlan.apply (p : UpdatePlan) (c : Category) : Category :=
  if c.id = p.id then { c with name := p.newName.getD c.name, type := p.newType.getD c.type }
  else if c.id ∈ p.childIds then { c with type := p.newType.getD c.type }
  else c

/-- The writes of an update. A row that is gone by then fails it. -/
def updateCategoryWrite (books : Books) (p : UpdatePlan) : Except ServiceError Books := do
  raiseIf ((p.id :: p.childIds).any (fun i => (books.categories.get? i).isNone) = true)
    (.database "categories")
  checkCategoryName (p.newName.getD "")
  pure { books with
    categories := books.categories.mapRows p.apply fun c => by
      unfold UpdatePlan.apply
      split_ifs <;> rfl }

/-- Rename or retype a category. The type of a master is carried to its subcategories. -/
def updateCategory (books : Books) (org id : ℕ) (body : CategoryUpdate) :
    Except ServiceError Books := do
  let p ← updateCategoryCheck books org id body
  updateCategoryWrite books p

/-! ### Move -/

/-- The words of a string: its longest parts without white space. -/
def words (s : String) : List String :=
  ((s.toList.splitBy fun a b => isSpace a = isSpace b).filter
    fun w => w.any (!isSpace ·)).map String.ofList

variable [Casing]

/-- Normalize a category name for collision detection: lower case, single spaces. -/
def normalizeCategoryName (name : String) : String :=
  String.intercalate " " (words (Casing.lower (strip name)))

/-- No other subcategory of the target master may have the name of the one that moves. -/
def checkNameCollision (books : Books) (org : ℕ) (sub target : Category) :
    Except ServiceError Unit :=
  match (childrenOf books org target.id).find? fun s =>
      s.id ≠ sub.id ∧ normalizeCategoryName s.name = normalizeCategoryName sub.name with
  | none => pure ()
  | some sibling =>
      .error (.conflict ("name_collision::" ++ toString target.id ++ "::" ++ toString sibling.id ++
        "::" ++ sibling.name ++ "::" ++ normalizeCategoryName sub.name))

/-- Load the subcategory and the target master of a move and check that the move is allowed. -/
def resolveForMove (books : Books) (org subcategoryId targetParentId : ℕ) :
    Except ServiceError (Category × Category) := do
  let sub ← orRaise (books.category? subcategoryId org) (.notFound "Category")
  raiseIf (sub.parentId = none)
    (.validation "Cannot move a master category. Only subcategories can be moved.")
  let target ← orRaise (books.category? targetParentId org) (.notFound "Target category")
  raiseIf (target.parentId ≠ none)
    (.validation "Move target must be a master category (top-level).")
  raiseIf (some target.id = sub.parentId)
    (.validation "Subcategory is already under this master; the move is a no-op.")
  raiseIf (sub.type ≠ target.type)
    (.validation ("type_mismatch: source subcategory is " ++ sub.type.value ++
      ", target master is " ++ target.type.value ++ "."))
  let _ ← orRaise (sub.parentId.bind fun p => books.category? p org) (.notFound "Source master")
  checkNameCollision books org sub target
  pure (sub, target)

/-- Hang a category of an organisation under a master. -/
def setParent (books : Books) (org id parentId : ℕ) : Books :=
  { books with
    categories := books.categories.modify id
      (fun c => if c.orgId = org then { c with parentId := some parentId } else c) fun c => by
        show (if _ then _ else _ : Category).id = c.id
        split_ifs <;> rfl }

/-- Move a subcategory under another master of its type. -/
def moveSubcategory (books : Books) (org subcategoryId targetParentId : ℕ) :
    Except ServiceError Books := do
  let (sub, target) ← resolveForMove books org subcategoryId targetParentId
  pure (setParent books org sub.id target.id)

/-- Two moves of a batch must not bring the same name under the same master. The moves seen so far
are given by their masters, names and subcategories. -/
def checkBatchCollision (seen : List (ℕ × String × ℕ)) (sub target : Category) :
    Except ServiceError Unit :=
  match seen.find? fun s => s.1 = target.id ∧ s.2.1 = normalizeCategoryName sub.name with
  | none => pure ()
  | some s =>
      .error (.conflict ("name_collision::" ++ toString target.id ++ "::" ++ toString s.2.2 ++
        "::" ++ sub.name ++ "::" ++ normalizeCategoryName sub.name))

/-- Check the moves of a batch against the categories before the batch, and against each other. -/
def resolveMoves (books : Books) (org : ℕ) :
    List BatchMoveItem → List (ℕ × String × ℕ) → Except ServiceError (List (ℕ × ℕ))
  | [], _ => pure []
  | move :: moves, seen => do
      let (sub, target) ← resolveForMove books org move.subcategoryId move.targetParentId
      checkBatchCollision seen sub target
      let rest ← resolveMoves books org moves
        ((target.id, normalizeCategoryName sub.name, sub.id) :: seen)
      pure ((sub.id, target.id) :: rest)

/-- Move several subcategories, all or none. -/
def batchMoveSubcategories (books : Books) (org : ℕ) (moves : List BatchMoveItem) :
    Except ServiceError Books := do
  raiseIf (moves = []) (.validation "No moves provided")
  let resolved ← resolveMoves books org moves []
  pure (resolved.foldl (fun b m => setParent b org m.1 m.2) books)

/-! ### Delete -/

/-- How many rows of each type and of each table use a category. -/
structure DependentBreakdown where
  incomeCount : ℕ
  expenseCount : ℕ
  transactionCount : ℕ
  recurringCount : ℕ
  forecastItemCount : ℕ
  deriving DecidableEq

/-- Count the rows of one type under a category: transactions, recurring templates and forecast
plan items. -/
def dependentsOfType (books : Books) (org id : ℕ) (e : EntryType) : ℕ × ℕ × ℕ :=
  (((transactionsUnder books org id).filter (·.type = e.toTransactionType)).length,
    ((recurringUnder books org id).filter (·.type = e)).length,
    ((forecastItemsUnder books org id).filter (·.type = e)).length)

def dependentBreakdown (books : Books) (org id : ℕ) : DependentBreakdown :=
  let income := dependentsOfType books org id .income
  let expense := dependentsOfType books org id .expense
  { incomeCount := income.1 + income.2.1 + income.2.2
    expenseCount := expense.1 + expense.2.1 + expense.2.2
    transactionCount := income.1 + expense.1
    recurringCount := income.2.1 + expense.2.1
    forecastItemCount := income.2.2 + expense.2.2 }

def DependentBreakdown.isEmpty (b : DependentBreakdown) : Bool :=
  b.transactionCount + b.recurringCount + b.forecastItemCount = 0

/-- The text of a rejected migration target. -/
def typeMismatch (source target : CategoryType) (b : DependentBreakdown) : ServiceError :=
  .validation ("type_mismatch::" ++ source.value ++ "::" ++ target.value ++ "::" ++
    toString b.incomeCount ++ "::" ++ toString b.expenseCount)

/-- Whether a migration target admits what the source admits or, for a source of both types, the
rows that use it. -/
def targetCompatible (source target : CategoryType) (b : DependentBreakdown) : Bool :=
  match source with
  | .income => target ≠ .expense
  | .expense => target ≠ .income
  | .both =>
      ¬(0 < b.incomeCount ∧ b.expenseCount = 0 ∧ target = .expense) ∧
        ¬(0 < b.expenseCount ∧ b.incomeCount = 0 ∧ target = .income) ∧
        ¬(0 < b.incomeCount ∧ 0 < b.expenseCount ∧ target ≠ .both)

/-- What a delete writes once its checks have passed: the category, and the one its rows move to
when it has any. -/
structure DeletePlan where
  id : ℕ
  target : Option ℕ
  deriving DecidableEq

/-- The checks on the migration target of a category with dependents. -/
def migrationTarget (books : Books) (org : ℕ) (cat : Category) (target : Option ℕ)
    (b : DependentBreakdown) : Except ServiceError Category := do
  let targetId ← orRaise target
    (.validation ("migration_target_required::" ++ toString b.transactionCount ++ "::" ++
      toString b.recurringCount ++ "::" ++ toString b.forecastItemCount))
  raiseIf (targetId = cat.id)
    (.validation "Migration target cannot equal the source category.")
  let target ← orRaise (books.category? targetId org)
    (.validation "Migration target not found in this org.")
  raiseIf (target.parentId = some cat.id)
    (.validation "Migration target cannot be a descendant of the category being deleted.")
  raiseIf (targetCompatible cat.type target.type b = false) (typeMismatch cat.type target.type b)
  pure target

/-- The reads and checks of a delete. -/
def deleteCategoryCheck (books : Books) (org id : ℕ) (target : Option ℕ) :
    Except ServiceError DeletePlan := do
  let cat ← orRaise (books.category? id org) (.notFound "Category")
  raiseIf (cat.parentId = none ∧ childrenOf books org cat.id ≠ [])
    (.conflict ("has_children::" ++ String.intercalate ":"
      ((childrenOf books org cat.id).map fun c => toString c.id ++ "|" ++ c.name)))
  assertMinFloorAfterDelete books org cat
  let breakdown := dependentBreakdown books org cat.id
  if breakdown.isEmpty then pure ⟨cat.id, none⟩
  else do
    let targetCat ← migrationTarget books org cat target breakdown
    pure ⟨cat.id, some targetCat.id⟩

/-- Move the rows of an organisation under a category to another one. -/
def migrateDependents (books : Books) (org id target : ℕ) : Books :=
  { books with
    transactions := books.transactions.mapRows
      (fun t => if t.orgId = org ∧ t.categoryId = id then { t with categoryId := target } else t)
      fun t => by
        show (if _ then _ else _ : Transaction).id = t.id
        split_ifs <;> rfl
    recurring := books.recurring.mapRows
      (fun r => if r.orgId = org ∧ r.categoryId = id then { r with categoryId := target } else r)
      fun r => by
        show (if _ then _ else _ : RecurringTransaction).id = r.id
        split_ifs <;> rfl
    forecastPlanItems := books.forecastPlanItems.mapRows
      (fun i => if i.orgId = org ∧ i.categoryId = id then { i with categoryId := target } else i)
      fun i => by
        show (if _ then _ else _ : ForecastPlanItem).id = i.id
        split_ifs <;> rfl }

/-- The unique key of forecast plan items: one item for each plan, category and type. -/
def Books.UniqueItems (books : Books) : Prop :=
  (books.forecastPlanItems.rows.map fun i => (i.planId, i.categoryId, i.type)).Nodup

instance (books : Books) : Decidable books.UniqueItems := inferInstanceAs (Decidable (List.Nodup _))

/-- Whether a row of another table refers to a category. -/
def Books.usesCategory (books : Books) (id : ℕ) : Bool :=
  books.transactions.rows.any (·.categoryId = id) || books.recurring.rows.any (·.categoryId = id) ||
    books.forecastPlanItems.rows.any (·.categoryId = id) ||
    books.budgets.rows.any (·.categoryId = id) || books.categoryRules.rows.any (·.categoryId = id)

/-- A row whose parent is deleted loses the reference: the relationship `children` clears it. -/
def Category.orphan (id : ℕ) (c : Category) : Category :=
  if c.parentId = some id then { c with parentId := none } else c

/-- Delete a category with its rules and budgets. -/
def removeCategory (books : Books) (org id : ℕ) : Books :=
  { books with
    categoryRules := books.categoryRules.filter (·.categoryId ≠ id)
    budgets := books.budgets.filter fun b => ¬(b.orgId = org ∧ b.categoryId = id)
    categories := (books.categories.filter (·.id ≠ id)).mapRows (Category.orphan id) fun c => by
      unfold Category.orphan
      split_ifs <;> rfl }

/-- Move the rows of a category to its migration target, when it has one. -/
def DeletePlan.migrate (p : DeletePlan) (books : Books) (org : ℕ) : Books :=
  match p.target with
  | none => books
  | some target => migrateDependents books org p.id target

/-- Whether a row of another table refers to a category that is not there. -/
def Books.dangling (books : Books) (id : ℕ) : Bool :=
  (books.categories.get? id).isNone && books.usesCategory id

/-- The writes of a delete. The database refuses a second item with the key of another and rows that
refer to a missing category. -/
def deleteCategoryWrite (books : Books) (org : ℕ) (p : DeletePlan) : Except ServiceError Books := do
  let migrated := p.migrate books org
  raiseIf (¬migrated.UniqueItems) (.database "uq_forecast_item_plan_cat_type")
  let removed := removeCategory migrated org p.id
  raiseIf (removed.dangling p.id = true ∨ p.target.any removed.dangling = true)
    (.database "categories")
  pure removed

/-- Delete a category. Its transactions, templates and forecast plan items move to the target. -/
def deleteCategoryWithMigration (books : Books) (org id : ℕ) (target : Option ℕ) :
    Except ServiceError Books := do
  let p ← deleteCategoryCheck books org id target
  deleteCategoryWrite books org p

end Pfv
