import MibDrivers.Descriptor

/-!
# Forests of objects

The objects of a module form a forest: a branch holds scalars, its leaves, and child items
in a list of their own, both in the order in which they came. The top-level items have no
parent.

## Main definitions

* `Scalar`, `Branch`, `Item` — the nodes of a forest
* `Forest` — the top-level items
* `Item.size` — the number of nodes of an item
* `Outcome` — what an operation that may be refused leaves behind
-/

namespace MibDrivers

/-- An object with a readable and possibly writable value. -/
structure Scalar where
  name : String
  oid : Oid
  access : Access := .unspecified
  description : String := ""
  deriving DecidableEq, Repr, Inhabited

/-- How messages and displays name a scalar. -/
def Scalar.text (scalar : Scalar) : String := scalar.name ++ " (" ++ scalar.oid.dotted ++ ")"

/-- A grouping object with its leaves and its children, which are items in a forest. -/
structure Branch (α : Type) where
  name : String
  oid : Oid
  description : String := ""
  leaves : List Scalar := []
  children : List α := []
  deriving Repr, Inhabited

/-- A node of a forest with all that is below it. -/
inductive Item where
  | branch (branch : Branch Item)
  | scalar (scalar : Scalar)
  deriving Repr, Inhabited

namespace Item

/-- The name of the node. -/
def name : Item → String
  | .branch b => b.name
  | .scalar s => s.name

/-- The identifier of the node. -/
def oid : Item → Oid
  | .branch b => b.oid
  | .scalar s => s.oid

/-- The branch that the item is, if it is one. -/
def branch? : Item → Option (Branch Item)
  | .branch b => some b
  | .scalar _ => none

/-- The item that a descriptor describes, with nothing below it. -/
def ofDescriptor (d : Descriptor) : Item :=
  match d.kind with
  | .branch => .branch { name := d.name, oid := d.oid, description := d.description }
  | .scalar =>
    .scalar { name := d.name, oid := d.oid, access := d.access, description := d.description }

mutual

/-- The number of nodes of an item. -/
def size : Item → Nat
  | .branch b => branchSize b
  | .scalar _ => 1

/-- The number of nodes of a branch. -/
def branchSize : Branch Item → Nat
  | ⟨_, _, _, leaves, children⟩ => 1 + leaves.length + totalSize children

/-- The number of nodes of a list of items. -/
def totalSize : List Item → Nat
  | [] => 0
  | item :: rest => item.size + totalSize rest

end

end Item

namespace Branch

/-- The number of nodes of a branch. -/
def size (b : Branch Item) : Nat := Item.branchSize b

/-- The children that are branches. -/
def childBranches (b : Branch Item) : List (Branch Item) := b.children.filterMap Item.branch?

/-- The branch has a child that is a branch. -/
def hasChildBranches (b : Branch Item) : Bool := !b.childBranches.isEmpty

end Branch

/-- The items that have no parent, in the order in which they came. -/
structure Forest where
  roots : List Item
  deriving Repr, Inhabited

/-- The forest without nodes. -/
def Forest.empty : Forest := ⟨[]⟩

/-- What an operation leaves behind: the value afterwards and, if the operation was
refused, the reason. -/
structure Outcome (α : Type) where
  after : α
  error? : Option MibError := none
  deriving Repr

namespace Outcome

/-- The same outcome for a value that holds the one at hand. -/
def map {α β : Type} (f : α → β) (outcome : Outcome α) : Outcome β :=
  ⟨f outcome.after, outcome.error?⟩

/-- The value afterwards, if the operation was not refused. -/
def toExcept {α : Type} (outcome : Outcome α) : Except MibError α :=
  match outcome.error? with
  | none => .ok outcome.after
  | some error => .error error

end Outcome

end MibDrivers
