import MibDrivers.Text.Quoted

/-!
# Why a set of objects is refused

The objects of a MIB module can be refused when their texts are read, when they are
nested into a forest, when scalars are placed, and when a driver is planned. This module
names the causes and holds their wording.

## Main definitions

* `MibError` — the causes
* `MibError.message` — the wording
-/

namespace MibDrivers

/-- Why a set of objects is refused. -/
inductive MibError where
  /-- The text is no dotted object identifier. -/
  | invalidOid (text : String)
  /-- Two objects, named in the order of their arrival, have one identifier. -/
  | duplicateOid (oid first second : String)
  /-- A scalar lies above another object. -/
  | leafHasDescendant (leaf oid descendant : String)
  /-- A branch has sub-groups and scalars that belong to none of them. -/
  | unpinnedLeaves (branch : String) (leaves : List String)
  /-- A scalar can neither be read nor be read and written. -/
  | unsupportedAccess (name access : String)
  deriving DecidableEq, Repr

/-- The wording of an error. -/
def MibError.message : MibError → String
  | .invalidOid text => "invalid oid: " ++ Text.quoted text
  | .duplicateOid oid first second =>
    "duplicate oid " ++ oid ++ ": " ++ first ++ " and " ++ second
  | .leafHasDescendant leaf oid descendant =>
    "scalar " ++ leaf ++ " (" ++ oid ++ ") cannot contain " ++ descendant
  | .unpinnedLeaves branch leaves =>
    "branch " ++ branch ++ " mixes sub-groups with unpinned scalars: " ++
      String.intercalate ", " leaves
  | .unsupportedAccess name access =>
    "unsupported access mode " ++ Text.quoted access ++ " on " ++ name

end MibDrivers
