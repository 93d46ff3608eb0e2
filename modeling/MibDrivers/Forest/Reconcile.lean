import MibDrivers.Forest.Basic

/-!
# Placing scalars on their deepest branch

After nesting, a scalar may still be a leaf of a branch although one of the children
contains it. Reconciling takes each child in its order, moves the leaves that the child
contains to the end of its leaves, and reconciles the child before it looks at the next.

A branch that has child branches and still has leaves is refused. What was moved until then
stays moved.

## Main definitions

* `Branch.reconcile` — places the scalars of a branch
* `Forest.reconcile` — places the scalars of every top-level branch
-/

namespace MibDrivers

/-- What placing the leaves of a branch on its children leaves: the children, the leaves
that none of them took, and a refusal of one of them. -/
structure Placement where
  children : List Item
  leaves : List Scalar
  error? : Option MibError := none

/-- Why a branch may not stay as it is. -/
def Branch.unpinned? (b : Branch Item) : Option MibError :=
  if b.hasChildBranches && !b.leaves.isEmpty then
    some (.unpinnedLeaves b.name (b.leaves.map Scalar.text))
  else none

namespace Item

mutual

/-- Places the scalars of a branch to whose leaves those of `arriving` are added. -/
def settle (arriving : List Scalar) : Branch Item → Outcome (Branch Item)
  | ⟨name, oid, description, leaves, children⟩ =>
    let placement := place (leaves ++ arriving) children
    let settled : Branch Item :=
      ⟨name, oid, description, placement.leaves, placement.children⟩
    ⟨settled, placement.error?.or settled.unpinned?⟩

/-- Moves leaves to the children that contain them, and reconciles each child in turn. -/
def place (leaves : List Scalar) : List Item → Placement
  | [] => { children := [], leaves }
  | .scalar s :: rest =>
    let placement := place leaves rest
    { placement with children := .scalar s :: placement.children }
  | .branch child :: rest =>
    let moved := leaves.filter (child.oid.isAncestorOf ·.oid)
    let kept := leaves.filter (!child.oid.isAncestorOf ·.oid)
    let settled := settle moved child
    match settled.error? with
    | some error =>
      { children := .branch settled.after :: rest, leaves := kept, error? := some error }
    | none =>
      let placement := place kept rest
      { placement with children := .branch settled.after :: placement.children }

end

end Item

/-- Places the scalars of a branch. -/
def Branch.reconcile (b : Branch Item) : Outcome (Branch Item) := Item.settle [] b

namespace Forest

/-- Reconciles top-level items in their order, up to the first refusal. -/
def reconcileRoots : List Item → Outcome (List Item)
  | [] => ⟨[], none⟩
  | .scalar s :: rest => (reconcileRoots rest).map (.scalar s :: ·)
  | .branch b :: rest =>
    let reconciled := b.reconcile
    match reconciled.error? with
    | some error => ⟨.branch reconciled.after :: rest, some error⟩
    | none => (reconcileRoots rest).map (.branch reconciled.after :: ·)

/-- Places the scalars of every top-level branch. -/
def reconcile (forest : Forest) : Outcome Forest :=
  (reconcileRoots forest.roots).map Forest.mk

end Forest

end MibDrivers
