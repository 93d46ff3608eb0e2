import MibDrivers.Forest.Basic

/-!
# Nesting by containment

An item is merged into a list of siblings. If a sibling contains it, that sibling receives
it. The siblings that it contains are adopted by it, and it takes the place of the first of
them; otherwise it comes last. A scalar contains nothing, so an item below a scalar and a
scalar above another node are refused, and so are two siblings with one identifier.

A branch receives a scalar as a leaf; it does not pass it on to a child. It receives a
branch by merging it into its children.

Merging and receiving call each other. Each nested merge works on fewer nodes than the one
around it, so `Item.mergeWithin` bounds the nesting by the number of nodes at hand. A merge
that is refused while it adopts leaves the siblings that it had passed over by then.

## Main definitions

* `Item.merge` — merges an item into a list of siblings
* `Branch.attach` — gives an item to a branch
* `Forest.insert` — merges an item into the top-level items
* `Forest.build` — the forest of a list of descriptors
-/

namespace MibDrivers

/-- The refusal of a scalar that lies above the node with the given name. -/
def Scalar.cannotContain (leaf : Scalar) (descendant : String) : MibError :=
  .leafHasDescendant leaf.name leaf.oid.dotted descendant

namespace Item

/-! ### Scalars above other nodes -/

mutual

/-- An item and all nodes below it, each branch before its content and the content last
first: the children before the leaves, each list from its end. -/
def lastFirst : Item → List Item
  | .branch b => .branch b :: branchContent b
  | .scalar s => [.scalar s]

/-- The nodes below a branch, last first. -/
def branchContent : Branch Item → List Item
  | ⟨_, _, _, leaves, children⟩ => childrenContent children ++ leaves.reverse.map .scalar

/-- The items of a list and the nodes below them, last first. -/
def childrenContent : List Item → List Item
  | [] => []
  | item :: rest => childrenContent rest ++ item.lastFirst

end

/-- Why `item` cannot be in one branch with `node`: one of them is a scalar and contains
the other. -/
def clash? (item node : Item) : Option MibError :=
  let above := match item with
    | .scalar s => if s.oid.isAncestorOf node.oid then some (s.cannotContain node.name) else none
    | .branch _ => none
  match node with
  | .scalar leaf =>
    if leaf.oid.isAncestorOf item.oid then some (leaf.cannotContain item.name) else above
  | .branch _ => above

/-- Why `item` cannot be merged among siblings of which `sibling` is one. -/
def conflict? (item sibling : Item) : Option MibError :=
  if sibling.oid = item.oid then
    some (.duplicateOid item.oid.dotted sibling.name item.name)
  else match sibling with
    | .scalar leaf =>
      if leaf.oid.isAncestorOf item.oid then some (leaf.cannotContain item.name) else none
    | .branch _ => none

end Item

/-- Gives an item to a branch, where `merge` merges a branch into its children. -/
def Branch.attachUsing (merge : List Item → Item → Outcome (List Item)) (b : Branch Item)
    (item : Item) : Outcome (Branch Item) :=
  match (Item.branchContent b).findSome? item.clash? with
  | some error => ⟨b, some error⟩
  | none =>
    match item with
    | .scalar s => ⟨{ b with leaves := b.leaves ++ [s] }, none⟩
    | .branch _ => (merge b.children item).map fun children => { b with children }

namespace Item

/-! ### Merging -/

/-- What adoption leaves: the siblings that were passed over and the item with what it
adopted. -/
structure Adoption where
  kept : List Item
  item : Item
  error? : Option MibError := none

/-- The branch `b` adopts the siblings that it contains, in their order. It stops at the
first one that it cannot receive. -/
def adoptInto (merge : List Item → Item → Outcome (List Item)) (b : Branch Item) :
    List Item → Adoption
  | [] => { kept := [], item := .branch b }
  | sibling :: rest =>
    if b.oid.isAncestorOf sibling.oid then
      let received := b.attachUsing merge sibling
      match received.error? with
      | some error => { kept := [], item := .branch received.after, error? := some error }
      | none => adoptInto merge received.after rest
    else
      let adoption := adoptInto merge b rest
      { adoption with kept := sibling :: adoption.kept }

/-- The item adopts the siblings that it contains. A scalar is refused if there is one. -/
def adopt (merge : List Item → Item → Outcome (List Item)) (siblings : List Item) :
    Item → Adoption
  | .branch b => adoptInto merge b siblings
  | .scalar s =>
    { kept := siblings
      item := .scalar s
      error? := (siblings.find? (s.oid.isAncestorOf ·.oid)).map fun e => s.cannotContain e.name }

/-- Gives the item to the first branch among the siblings that contains it, if there is
one. -/
def receive? (merge : List Item → Item → Outcome (List Item)) (item : Item) :
    List Item → Option (Outcome (List Item))
  | [] => none
  | .branch parent :: rest =>
    if parent.oid.isAncestorOf item.oid then
      some ((parent.attachUsing merge item).map fun parent => .branch parent :: rest)
    else (receive? merge item rest).map (·.map (.branch parent :: ·))
  | .scalar s :: rest => (receive? merge item rest).map (·.map (.scalar s :: ·))

/-- The place of an item among the siblings that stay: that of the first sibling which it
contains, or the last one. -/
def slot (siblings : List Item) (item : Item) : Nat :=
  (siblings.takeWhile fun sibling => !item.oid.isAncestorOf sibling.oid).length

/-- Merges an item into a list of siblings, where `merge` does the nested merges. -/
def mergeStep (merge : List Item → Item → Outcome (List Item)) (siblings : List Item)
    (item : Item) : Outcome (List Item) :=
  match siblings.findSome? item.conflict? with
  | some error => ⟨siblings, some error⟩
  | none =>
    let adoption := adopt merge siblings item
    match adoption.error? with
    | some error => ⟨adoption.kept, some error⟩
    | none =>
      match receive? merge adoption.item adoption.kept with
      | some outcome => outcome
      | none =>
        let place := slot siblings item
        ⟨adoption.kept.take place ++ adoption.item :: adoption.kept.drop place, none⟩

/-- Merges an item into a list of siblings with merges nested at most `depth` deep. -/
def mergeWithin : (depth : Nat) → List Item → Item → Outcome (List Item)
  | 0, siblings, _ => ⟨siblings, none⟩
  | depth + 1, siblings, item => mergeStep (mergeWithin depth) siblings item

/-- Merges an item into a list of siblings. -/
def merge (siblings : List Item) (item : Item) : Outcome (List Item) :=
  mergeWithin (totalSize siblings + item.size) siblings item

end Item

/-- Gives an item to a branch: a scalar becomes its last leaf, a branch is merged into its
children. It is refused if a scalar below the branch contains it, or if it is a scalar that
contains a node below the branch. -/
def Branch.attach (b : Branch Item) (item : Item) : Outcome (Branch Item) :=
  b.attachUsing Item.merge item

namespace Forest

/-- Merges an item into the top-level items. -/
def insert (forest : Forest) (item : Item) : Outcome Forest :=
  (Item.merge forest.roots item).map Forest.mk

/-- Inserts descriptors in their order, where `earlier` are those already inserted. -/
def buildFrom (earlier : List Descriptor) (forest : Forest) :
    List Descriptor → Except MibError Forest
  | [] => .ok forest
  | d :: rest =>
    match earlier.find? (·.oid = d.oid) with
    | some first => .error (.duplicateOid d.oid.dotted first.name d.name)
    | none => do
      let forest ← (forest.insert (.ofDescriptor d)).toExcept
      buildFrom (d :: earlier) forest rest

/-- The forest of a list of descriptors, whose identifiers have to be distinct. -/
def build (descriptors : List Descriptor) : Except MibError Forest :=
  buildFrom [] empty descriptors

end Forest

end MibDrivers
