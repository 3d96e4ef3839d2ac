import Pfv.Models.Books

/-!
# Recommended categories of an organisation

Seeding and restoring the recommended categories
(`backend/app/services/org_bootstrap_service.py`). Registration and the restore action insert the
recommended categories whose slug no system category of the organisation has, and leave the others
as they are.

## Main definitions

* `insertMaster`: a recommended master with its subcategories.
* `restoreRecommendedCategories`: the restore action; `seedCategories`: the same rows at
  registration.
-/

namespace Pfv

/-- The slugs of the system categories of an organisation. -/
def systemSlugs (cats : Table Category) (org : ℕ) : List (Option String) :=
  (cats.rows.filter fun c => c.orgId = org ∧ c.isSystem = true).map (·.slug)

/-- The system category of an organisation with a slug. -/
def systemCategory? (cats : Table Category) (org : ℕ) (slug : String) : Option Category :=
  cats.rows.find? fun c => c.orgId = org ∧ c.slug = some slug ∧ c.isSystem = true

/-- The row of a recommended master. -/
def MasterDef.row (m : MasterDef) (org : ℕ) : Category where
  orgId := org
  name := m.name
  slug := some m.slug
  isSystem := true
  type := m.type

/-- The row of a recommended subcategory: it takes the recommended type of its master. -/
def MasterDef.childRow (m : MasterDef) (org : ℕ) (master : Option ℕ) (child : ChildDef) :
    Category where
  orgId := org
  parentId := master
  name := child.name
  slug := some child.slug
  isSystem := true
  type := m.type

/-- Store a category unless its slug is among the slugs present. The counter has the number of
stored rows. -/
def insertMissing (existing : List (Option String)) (s : Table Category × ℕ) (c : Category) :
    Table Category × ℕ :=
  if c.slug ∈ existing then s else (s.1.insert c, s.2 + 1)

/-- Store a recommended master unless it is present, and its subcategories that are not. -/
def insertMaster (org : ℕ) (existing : List (Option String)) (s : Table Category × ℕ)
    (m : MasterDef) : Table Category × ℕ :=
  let master :=
    if some m.slug ∈ existing then (systemCategory? s.1 org m.slug).map (·.id) else some s.1.next
  (m.children.map (m.childRow org master)).foldl (insertMissing existing)
    (insertMissing existing s (m.row org))

/-- Re-run the seed of the system categories for an organisation. Returns the number of new
categories. -/
def restoreRecommendedCategories (cats : Table Category) (org : ℕ) : Table Category × ℕ :=
  let existing := systemSlugs cats org
  (standaloneSystemCategories.map (·.row org)).foldl (insertMissing existing)
    (systemCategories.foldl (insertMaster org existing) (cats, 0))

/-- The categories `seed_org_defaults` inserts: the same rows as a restore. -/
def seedCategories (cats : Table Category) (org : ℕ) : Table Category :=
  (restoreRecommendedCategories cats org).1

end Pfv
