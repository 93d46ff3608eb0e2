import MibDrivers.Forest.Basic

/-!
# Visiting the nodes of a forest

The nodes are visited from the first top-level item on: a branch, then its leaves, then its
children, each with what is below it. A visit knows the depth of its node and the branch
that holds it. The walk keeps the visits that are still to come in a list, and puts the
content of a branch before them.

## Main definitions

* `Visit` — a node in its place
* `Forest.visits` — all visits, in order
* `Forest.find?` — the first visit of a node with a given identifier
* `Forest.branchCount`, `Forest.scalarCount` — the numbers of branches and scalars
-/

namespace MibDrivers

/-- A node in its place: the branch that holds it, and the number of branches above it. -/
structure Visit where
  parent : Option (Branch Item)
  depth : Nat
  item : Item
  deriving Inhabited

namespace Visit

/-- The visits of what a branch holds directly. -/
def below (v : Visit) : List Visit :=
  match v.item with
  | .scalar _ => []
  | .branch b =>
    (b.leaves.map Item.scalar ++ b.children).map fun item =>
      { parent := some b, depth := v.depth + 1, item }

/-- The number of nodes that a list of visits leads to. -/
def weight (work : List Visit) : Nat := Item.totalSize (work.map (·.item))

theorem totalSize_append (first second : List Item) :
    Item.totalSize (first ++ second) = Item.totalSize first + Item.totalSize second := by
  induction first with
  | nil => simp [Item.totalSize]
  | cons item rest ih => simp only [List.cons_append, Item.totalSize, ih, Nat.add_assoc]

theorem totalSize_scalars (leaves : List Scalar) :
    Item.totalSize (leaves.map Item.scalar) = leaves.length := by
  induction leaves with
  | nil => rfl
  | cons leaf rest ih =>
    simp only [List.map_cons, List.length_cons, Item.totalSize, Item.size, ih]
    omega

theorem weight_append (first second : List Visit) :
    weight (first ++ second) = weight first + weight second := by
  simp only [weight, List.map_append, totalSize_append]

/-- What a node holds directly weighs one less than the node, if it is a branch. -/
theorem weight_below_branch (v : Visit) (b : Branch Item) (h : v.item = .branch b) :
    weight v.below + 1 = v.item.size := by
  obtain ⟨parent, depth, item⟩ := v
  obtain ⟨name, oid, description, leaves, children⟩ := b
  subst h
  simp only [below, weight, List.map_map, Function.comp_def, List.map_id', totalSize_append,
    totalSize_scalars, Item.size, Item.branchSize]
  omega

/-- What a node holds directly weighs less than the node. -/
theorem weight_below_lt (v : Visit) : weight v.below < v.item.size := by
  cases h : v.item with
  | scalar s => simp [below, h, weight, Item.totalSize, Item.size]
  | branch b =>
    have := weight_below_branch v b h
    rw [h] at this
    omega

end Visit

namespace Forest

/-- The visits that a list of visits leads to. -/
def walk : List Visit → List Visit
  | [] => []
  | v :: rest => v :: walk (v.below ++ rest)
termination_by work => Visit.weight work
decreasing_by
  have h := Visit.weight_below_lt v
  rw [Visit.weight_append]
  simp only [Visit.weight, List.map_cons, Item.totalSize] at *
  omega

/-- All visits, in order. -/
def visits (forest : Forest) : List Visit :=
  walk (forest.roots.map fun item => { parent := none, depth := 0, item })

/-- The forest has no nodes. -/
def isEmpty (forest : Forest) : Bool := forest.roots.isEmpty

/-- The number of branches. -/
def branchCount (forest : Forest) : Nat :=
  forest.visits.countP fun v => v.item.branch?.isSome

/-- The number of scalars. -/
def scalarCount (forest : Forest) : Nat :=
  forest.visits.countP fun v => v.item.branch?.isNone

/-- The first visit of a node with the given identifier. -/
def find? (forest : Forest) (oid : Oid) : Option Visit :=
  forest.visits.find? (·.item.oid = oid)

end Forest

end MibDrivers
