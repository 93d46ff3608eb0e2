import Mathlib.Data.List.Nodup
import MibDrivers.Proofs.Forest.Legality

/-!
# The order of the visits

Visiting a forest keeps a list of the visits that are still to come. What comes of it follows from
the items alone, by recursion: a branch comes first, then its leaves, then its children, each with
all that is below it. Every node is listed together with the branches above it. Their number is the
depth of its visit, and the innermost of them is the parent.

## Main definitions

* `Located` — a node with the branches above it
* `Item.preorder`, `Item.preorderOf`, `Forest.preorder` — the nodes of an item, of siblings and of a
  forest, by recursion
* `Forest.Holds` — a forest holds a node below the given branches
* `Forest.Finds` — looking up an identifier finds the object of a working set that has it

## Main results

* `Forest.walk_visits` — what any list of visits that are still to come leads to
* `Forest.mem_preorder_iff` — the nodes that are listed are those that the forest holds
* `Forest.finds_of_build` — what is found in a forest that was built
* `Forest.visits_preorder` — the visits are the recursive listing
-/

namespace MibDrivers

/-- A node with the branches above it, the innermost first. -/
structure Located where
  above : List (Branch Item)
  item : Item

namespace Located

/-- The visit of a node: the innermost branch above it holds it, and its depth is the number of the
branches above it. -/
def visit (node : Located) : Visit where
  parent := node.above.head?
  depth := node.above.length
  item := node.item

/-- What a node holds directly. -/
def below (node : Located) : List Located :=
  match node.item with
  | .scalar _ => []
  | .branch b => b.members.map (⟨b :: node.above, ·⟩)

/-- The visits below a node are those of what it holds. -/
theorem below_visit (node : Located) : node.visit.below = node.below.map visit := by
  obtain ⟨above, item⟩ := node
  cases item with
  | scalar s => rfl
  | branch b => simp [Visit.below, below, visit, Branch.members, Function.comp_def]

end Located

namespace Item

variable {item x : Item} {b : Branch Item} {siblings : List Item} {above outer : List (Branch Item)}
  {node : Located}

/-! ### The recursive listing -/

mutual

/-- The nodes of an item below the given branches: the item comes before what it holds. -/
def preorder (above : List (Branch Item)) : Item → List Located
  | .branch b => ⟨above, .branch b⟩ :: branchPreorder above b
  | .scalar s => [⟨above, .scalar s⟩]

/-- The nodes that a branch holds: its leaves come before its children. -/
def branchPreorder (above : List (Branch Item)) : Branch Item → List Located
  | ⟨name, oid, description, leaves, children⟩ =>
    let inner := ⟨name, oid, description, leaves, children⟩ :: above
    leaves.map (fun leaf => ⟨inner, .scalar leaf⟩) ++ preorderOf inner children

/-- The nodes of siblings below the given branches, one sibling after the other. -/
def preorderOf (above : List (Branch Item)) : List Item → List Located
  | [] => []
  | item :: rest => item.preorder above ++ preorderOf above rest

end

theorem preorderOf_eq_flatMap : preorderOf above siblings = siblings.flatMap (preorder above) := by
  induction siblings with
  | nil => rfl
  | cons item rest ih => rw [preorderOf, ih, List.flatMap_cons]

/-- A branch is listed before what it holds. -/
theorem preorder_branch (above : List (Branch Item)) (b : Branch Item) :
    (Item.branch b).preorder above =
      ⟨above, .branch b⟩ :: b.members.flatMap (preorder (b :: above)) := by
  obtain ⟨name, oid, description, leaves, children⟩ := b
  simp [preorder, branchPreorder, Branch.members, preorderOf_eq_flatMap, List.flatMap_map,
    ← List.map_eq_flatMap]

/-- A node is listed before what it holds. -/
theorem preorder_located (node : Located) :
    node.item.preorder node.above =
      node :: node.below.flatMap fun member => member.item.preorder member.above := by
  obtain ⟨above, item⟩ := node
  cases item with
  | scalar s => rfl
  | branch b => rw [preorder_branch, Located.below, List.flatMap_map]

theorem mem_preorder_self (node : Located) : node ∈ node.item.preorder node.above := by
  rw [preorder_located]
  exact List.mem_cons_self

/-- Below a listed branch, everything that it holds is listed. -/
theorem mem_preorder_of_mem_members (h : ⟨outer, .branch b⟩ ∈ item.preorder above)
    (hx : x ∈ b.members) : ⟨b :: outer, x⟩ ∈ item.preorder above := by
  induction item using inductMembers generalizing above with
  | scalar s =>
    rw [preorder, List.mem_singleton] at h
    cases h
  | branch c ih =>
    rw [preorder_branch, List.mem_cons, List.mem_flatMap] at h ⊢
    right
    rcases h with hself | ⟨member, hmember, hbelow⟩
    · -- The listed branch is the item itself.
      obtain ⟨rfl, rfl⟩ := Located.mk.inj hself |>.imp_right Item.branch.inj
      exact ⟨x, hx, mem_preorder_self ⟨b :: outer, x⟩⟩
    · exact ⟨member, hmember, ih member hmember hbelow⟩

end Item

namespace Forest

variable {forest : Forest} {descriptors : List Descriptor} {oid : Oid} {node : Located} {x : Item}
  {above : List (Branch Item)}

/-- The nodes of a forest, listed by recursion. -/
def preorder (forest : Forest) : List Located := Item.preorderOf [] forest.roots

/-- A forest holds a node below the given branches: the node is a top-level item, or the innermost
of the branches holds it and is itself held below the others. -/
inductive Holds (forest : Forest) : List (Branch Item) → Item → Prop
  | root {x : Item} (h : x ∈ forest.roots) : Holds forest [] x
  | member {above : List (Branch Item)} {b : Branch Item} {x : Item}
      (hb : Holds forest above (.branch b)) (hx : x ∈ b.members) : Holds forest (b :: above) x

/-! ### The walk -/

/-- Whatever the nodes are whose visits are still to come, what they lead to is their recursive
listing. -/
theorem walk_visits (work : List Located) :
    walk (work.map Located.visit) =
      (work.flatMap fun node => node.item.preorder node.above).map Located.visit := by
  -- The visits to come stay those of located nodes: opening the first one puts the nodes that it
  -- holds before the others.
  generalize hvisits : work.map Located.visit = visits
  fun_induction walk visits generalizing work with
  | case1 => rw [List.map_eq_nil_iff.mp hvisits]; rfl
  | case2 v rest ih =>
    obtain ⟨node, others, rfl, rfl, rfl⟩ := List.map_eq_cons_iff.mp hvisits
    rw [ih (node.below ++ others) (by rw [List.map_append, node.below_visit]), List.flatMap_cons,
      Item.preorder_located node, List.cons_append, List.map_cons, List.flatMap_append]

theorem visits_eq (forest : Forest) : forest.visits = forest.preorder.map Located.visit := by
  have hroots := walk_visits (forest.roots.map (⟨[], ·⟩))
  rwa [List.map_map, List.flatMap_map, ← Item.preorderOf_eq_flatMap] at hroots

theorem length_visits (forest : Forest) : forest.visits.length = Item.totalSize forest.roots := by
  rw [← Item.length_subitemsOf, ← items, ← visits_items, List.length_map]

theorem branchCount_add_scalarCount (forest : Forest) :
    forest.branchCount + forest.scalarCount = forest.visits.length := by
  have hscalars : forest.scalarCount = forest.visits.countP (¬ ·.item.branch?.isSome) :=
    List.countP_congr fun v _ => by simp
  rw [branchCount, hscalars, ← List.length_eq_countP_add_countP]

/-! ### The nodes that are listed -/

theorem holds_of_mem_preorder {item : Item} (hitem : forest.Holds above item)
    (h : node ∈ item.preorder above) : forest.Holds node.above node.item := by
  induction item using Item.inductMembers generalizing above with
  | scalar s =>
    rw [Item.preorder, List.mem_singleton] at h
    exact h ▸ hitem
  | branch b ih =>
    rw [Item.preorder_branch, List.mem_cons, List.mem_flatMap] at h
    rcases h with rfl | ⟨member, hmember, hbelow⟩
    · exact hitem
    · exact ih member hmember (hitem.member hmember) hbelow

theorem Holds.mem_preorder (h : forest.Holds above x) : ⟨above, x⟩ ∈ forest.preorder := by
  rw [preorder, Item.preorderOf_eq_flatMap, List.mem_flatMap]
  induction h with
  | @root root h => exact ⟨root, h, Item.mem_preorder_self ⟨[], root⟩⟩
  | member _ hx ih =>
    obtain ⟨root, hroot, hmem⟩ := ih
    exact ⟨root, hroot, Item.mem_preorder_of_mem_members hmem hx⟩

/-- The nodes that are listed are those that the forest holds. -/
theorem mem_preorder_iff : node ∈ forest.preorder ↔ forest.Holds node.above node.item := by
  refine ⟨fun h => ?_, Holds.mem_preorder⟩
  rw [preorder, Item.preorderOf_eq_flatMap, List.mem_flatMap] at h
  obtain ⟨root, hroot, hmem⟩ := h
  exact holds_of_mem_preorder (.root hroot) hmem

/-! ### Looking up identifiers -/

/-- Looking up an identifier finds the object of the working set that has it, and nothing if there
is no such object. -/
structure Finds (forest : Forest) (descriptors : List Descriptor) : Prop where
  found : ∀ d ∈ descriptors, (∀ e ∈ descriptors, e.oid = d.oid → e = d) ∧
    ∃ v ∈ forest.visits, forest.find? d.oid = some v ∧ v.item.descriptor = d.kept
  missing : ∀ oid, (∀ d ∈ descriptors, d.oid ≠ oid) → forest.find? oid = none

theorem find?_eq_none_iff : forest.find? oid = none ↔ ∀ x ∈ forest.items, x.oid ≠ oid := by
  rw [find?, List.find?_eq_none, ← visits_items, List.forall_mem_map]
  simp

/-- Looking up identifiers in a forest that was built finds the objects of its working set. -/
theorem finds_of_build (h : build descriptors = .ok forest) : forest.Finds descriptors := by
  have hrep := represents_of_build h
  have hunique : ∀ d ∈ descriptors, ∀ e ∈ descriptors, e.oid = d.oid → e = d := fun d hd e he =>
    List.inj_on_of_nodup_map hrep.legal.distinct he hd
  refine ⟨fun d hd => ⟨hunique d hd, ?_⟩, fun oid hnone => find?_eq_none_iff.mpr fun x hx heq => ?_⟩
  · cases hfind : forest.find? d.oid with
    | none =>
      obtain ⟨x, hx, hdescriptor⟩ := hrep.mem_items_iff.mpr ⟨d, hd, rfl⟩
      refine absurd ?_ (find?_eq_none_iff.mp hfind x hx)
      rw [← Item.oid_descriptor, hdescriptor, Descriptor.oid_kept]
    | some v =>
      -- What is found is an object of the working set, and no other one has the identifier.
      have hv : v ∈ forest.visits := List.mem_of_find?_eq_some hfind
      have hitem : v.item ∈ forest.items := visits_items forest ▸ List.mem_map_of_mem hv
      obtain ⟨e, he, hkept⟩ := hrep.mem_items_iff.mp ⟨v.item, hitem, rfl⟩
      have hoid : v.item.oid = d.oid := by simpa using List.find?_some hfind
      rw [← Item.oid_descriptor, ← hkept, Descriptor.oid_kept] at hoid
      exact ⟨v, hv, rfl, by rw [← hkept, hunique d hd e he hoid]⟩
  · obtain ⟨e, he, hoid⟩ := hrep.exists_oid hx
    exact hnone e he (hoid.trans heq)

/-- The visits are the recursive listing of the nodes that the forest holds, where the branches
above a node give its parent and its depth. So branches and scalars add up to all nodes, and looking
up an identifier in a forest that was built finds the object that has it. -/
theorem visits_preorder (forest : Forest) :
    forest.visits = forest.preorder.map Located.visit ∧
      (∀ node, node ∈ forest.preorder ↔ forest.Holds node.above node.item) ∧
      forest.visits.length = Item.totalSize forest.roots ∧
      forest.branchCount + forest.scalarCount = Item.totalSize forest.roots ∧
      ∀ descriptors, build descriptors = .ok forest → forest.Finds descriptors := by
  refine ⟨visits_eq forest, fun _ => mem_preorder_iff, length_visits forest, ?_, ?_⟩
  · rw [branchCount_add_scalarCount, length_visits]
  · exact fun _ => finds_of_build

/-- A column that is received before its entry, and a table around both that comes last. -/
def nestedLast : List Descriptor :=
  [{ name := "ifMtu", kind := .scalar, oid := ⟨[1, 3, 1, 4]⟩, access := .readOnly },
    { name := "ifEntry", kind := .branch, oid := ⟨[1, 3, 1]⟩ },
    { name := "ifNumber", kind := .scalar, oid := ⟨[1, 2]⟩, access := .readWrite },
    { name := "ifTable", kind := .branch, oid := ⟨[1, 3]⟩, access := .readOnly }]

/-- The entry in the table, with the column. -/
def nested : Forest :=
  let column : Scalar := { name := "ifMtu", oid := ⟨[1, 3, 1, 4]⟩, access := .readOnly }
  let entry : Branch Item := { name := "ifEntry", oid := ⟨[1, 3, 1]⟩, leaves := [column] }
  ⟨[.branch { name := "ifTable", oid := ⟨[1, 3]⟩, children := [.branch entry] },
    .scalar { name := "ifNumber", oid := ⟨[1, 2]⟩, access := .readWrite }]⟩

theorem visits_preorder_nested :
    build nestedLast = .ok nested ∧ nested.visits = nested.preorder.map Located.visit ∧
      nested.branchCount + nested.scalarCount = 4 ∧ nested.Finds nestedLast := by
  obtain ⟨hvisits, -, -, hcount, hfinds⟩ := visits_preorder nested
  exact ⟨rfl, hvisits, hcount, hfinds nestedLast rfl⟩

end Forest

end MibDrivers
