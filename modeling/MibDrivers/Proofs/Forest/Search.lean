import MibDrivers.Proofs.Forest.Merge

/-!
# The search below a branch

Before a branch receives an item, everything below the branch is searched for a node that cannot be
there together with the item: a scalar that contains the item, or a node that the item contains if
it is a scalar itself. The nodes that are still to be looked at lie on a stack. A branch that is
looked at puts what it holds on top, its leaves below its children, so that the last child comes
next. The search ends at the first node that is in the way.

Whatever lies on the stack, the search comes to looking through a list: the nodes on the stack from
the top, each with all that is below it. So it meets every node below the branch unless it ends
before, and what it reports is such a node.

## Main definitions

* `Branch.Below` — a node is anywhere below a branch
* `Branch.search` — the search with a stack
* `Branch.Clashes` — what the search may report

## Main results

* `Item.searchFrom_eq` — what the search finds from any stack
* `Branch.search_isSome_iff`, `Branch.clashes_of_search` — the search is complete, and sound
* `Branch.attach_search` — the search decides whether a branch receives an item
-/

namespace MibDrivers

/-! ### Below a branch -/

/-- A node is anywhere below a branch: the branch holds it, or it holds a branch that the node is
below. -/
inductive Branch.Below : Branch Item → Item → Prop
  | member {b : Branch Item} {x : Item} (h : x ∈ b.members) : Below b x
  | deeper {b c : Branch Item} {x : Item} (hc : .branch c ∈ b.members) (hx : Below c x) : Below b x

namespace Item

variable {item node x : Item} {b : Branch Item} {error : MibError}

theorem below_of_mem_subitemsOf (hx : x ∈ subitemsOf b.members) : b.Below x := by
  generalize hitem : Item.branch b = item
  induction item using inductMembers generalizing b with
  | scalar s => cases hitem
  | branch c ih =>
    obtain rfl := Item.branch.inj hitem
    obtain ⟨member, hmember, hmem⟩ := mem_subitemsOf.mp hx
    cases member with
    | scalar s =>
      rw [subitems_scalar, List.mem_singleton] at hmem
      exact .member (hmem ▸ hmember)
    | branch d =>
      rcases mem_subitems_branch.mp hmem with rfl | hbelow
      · exact .member hmember
      · exact .deeper hmember (ih _ hmember hbelow rfl)

/-- The items that the search can meet are the nodes below the branch. -/
theorem mem_branchContent_iff_below : x ∈ branchContent b ↔ b.Below x := by
  rw [mem_branchContent]
  refine ⟨below_of_mem_subitemsOf, fun h => ?_⟩
  induction h with
  | member h => exact mem_subitemsOf_of_mem h
  | deeper hc _ ih => exact mem_subitemsOf.mpr ⟨_, hc, mem_subitems_branch.mpr (.inr ih)⟩

/-! ### The search with a stack -/

/-- What a node holds directly. -/
def members : Item → List Item
  | .branch b => b.members
  | .scalar _ => []

theorem totalSize_members_lt (node : Item) : totalSize node.members < node.size := by
  cases node with
  | branch b => rw [members, size_branch]; omega
  | scalar s => exact Nat.one_pos

theorem totalSize_reverse (siblings : List Item) :
    totalSize siblings.reverse = totalSize siblings := by
  induction siblings with
  | nil => rfl
  | cons item rest ih =>
    rw [List.reverse_cons, Visit.totalSize_append, ih, totalSize, totalSize, totalSize]
    omega

/-- Looks through the nodes on a stack and all that is below them for one that cannot be in one
branch with the item. What a node holds is put on top of the stack, the last of it on top. -/
def searchFrom (item : Item) : (stack : List Item) → Option MibError
  | [] => none
  | node :: stack =>
    match item.clash? node with
    | some error => some error
    | none => searchFrom item (node.members.reverse ++ stack)
termination_by stack => totalSize stack
decreasing_by
  have hlt := node.totalSize_members_lt
  rw [Visit.totalSize_append, totalSize_reverse, totalSize]
  omega

theorem childrenContent_eq (siblings : List Item) :
    childrenContent siblings = siblings.reverse.flatMap lastFirst := by
  induction siblings with
  | nil => rfl
  | cons item rest ih => rw [childrenContent, ih]; simp

theorem branchContent_eq_flatMap (b : Branch Item) :
    branchContent b = b.members.reverse.flatMap lastFirst := by
  rw [branchContent_eq, childrenContent_eq, Branch.members, List.reverse_append,
    List.flatMap_append, ← List.map_reverse, List.flatMap_map]
  simp [lastFirst, ← List.map_eq_flatMap]

/-- A node comes before all that is below it. -/
theorem lastFirst_eq (node : Item) :
    node.lastFirst = node :: node.members.reverse.flatMap lastFirst := by
  cases node with
  | branch b => rw [lastFirst, branchContent_eq_flatMap]; rfl
  | scalar s => rfl

/-- Whatever lies on the stack, the search finds the first node in the way among those on the stack,
each with all that is below it. -/
theorem searchFrom_eq (item : Item) (stack : List Item) :
    item.searchFrom stack = (stack.flatMap lastFirst).findSome? item.clash? := by
  fun_induction searchFrom item stack with
  | case1 => rfl
  | case2 node stack error herror =>
    rw [List.flatMap_cons, lastFirst_eq, List.cons_append, List.findSome?_cons, herror]
  | case3 node stack hnone ih =>
    rw [ih, List.flatMap_append, List.flatMap_cons, lastFirst_eq node, List.cons_append,
      List.findSome?_cons, hnone]

end Item

namespace Branch

variable {b : Branch Item} {item node : Item} {error : MibError}

/-- The search of everything below a branch, from a stack with what the branch holds. -/
def search (b : Branch Item) (item : Item) : Option MibError :=
  item.searchFrom b.members.reverse

theorem search_eq (b : Branch Item) (item : Item) :
    b.search item = (Item.branchContent b).findSome? item.clash? := by
  rw [search, Item.searchFrom_eq, ← Item.branchContent_eq_flatMap]

/-! ### Nodes in the way -/

theorem clash?_isSome_iff :
    (item.clash? node).isSome ↔ (∃ leaf, node = .scalar leaf ∧ leaf.oid < item.oid) ∨
      ∃ s, item = .scalar s ∧ s.oid < node.oid := by
  cases item with
  | branch c => cases node <;> simp [Item.clash?]
  | scalar s =>
    cases node with
    | branch c => simp [Item.clash?]
    | scalar leaf => by_cases hlt : leaf.oid < s.oid <;> simp [Item.clash?, hlt]

/-- What the search below a branch may report: a scalar that contains the item, or the item, being a
scalar, with a node that it contains. -/
inductive Clashes (b : Branch Item) (item : Item) : MibError → Prop
  | above {leaf : Scalar} (hleaf : b.Below (.scalar leaf)) (hlt : leaf.oid < item.oid) :
      Clashes b item (.leafHasDescendant leaf.name leaf.oid.dotted item.name)
  | under {s : Scalar} {node : Item} (hitem : item = .scalar s) (hnode : b.Below node)
      (hlt : s.oid < node.oid) :
      Clashes b item (.leafHasDescendant s.name s.oid.dotted node.name)

theorem clashes_of_clash? (hnode : b.Below node) (h : item.clash? node = some error) :
    b.Clashes item error := by
  -- A node that contains the item is found before one that the item contains.
  by_cases habove : ∃ leaf, node = .scalar leaf ∧ leaf.oid < item.oid
  · obtain ⟨leaf, rfl, hlt⟩ := habove
    have herror : leaf.cannotContain item.name = error := by simpa [Item.clash?, hlt] using h
    exact herror ▸ .above hnode hlt
  · obtain hleaf | ⟨s, rfl, hlt⟩ := clash?_isSome_iff.mp (Option.isSome_of_eq_some h)
    · exact absurd hleaf habove
    · have herror : s.cannotContain node.name = error := by
        cases node with
        | branch c => simpa [Item.clash?, show s.oid < c.oid from hlt] using h
        | scalar leaf =>
          have hnot : ¬ leaf.oid < s.oid := fun hleaf => habove ⟨leaf, rfl, hleaf⟩
          simpa [Item.clash?, hnot, show s.oid < leaf.oid from hlt] using h
      exact herror ▸ .under rfl hnode hlt

/-- The search is complete. -/
theorem search_isSome_iff :
    (b.search item).isSome ↔ (∃ leaf, b.Below (.scalar leaf) ∧ leaf.oid < item.oid) ∨
      ∃ s, item = .scalar s ∧ ∃ node, b.Below node ∧ s.oid < node.oid := by
  rw [search_eq, List.findSome?_isSome_iff]
  simp only [Item.mem_branchContent_iff_below, clash?_isSome_iff]
  grind

/-- What the search reports is so. -/
theorem clashes_of_search (h : b.search item = some error) : b.Clashes item error := by
  rw [search_eq] at h
  obtain ⟨node, hnode, hclash⟩ := List.exists_of_findSome?_eq_some h
  exact clashes_of_clash? (Item.mem_branchContent_iff_below.mp hnode) hclash

/-- A branch searches everything below it before it receives an item. The search reports an error
exactly if a scalar below contains the item, or if the item is a scalar that contains a node below;
the error names two such nodes, and the branch stays as it is. Otherwise the branch receives the
item, a scalar as its last leaf and a branch among its children. -/
theorem attach_search (b : Branch Item) (item : Item) :
    ((b.search item).isSome ↔ (∃ leaf, b.Below (.scalar leaf) ∧ leaf.oid < item.oid) ∨
      ∃ s, item = .scalar s ∧ ∃ node, b.Below node ∧ s.oid < node.oid) ∧
    (∀ error, b.search item = some error → b.Clashes item error) ∧
    b.attach item =
      match b.search item, item with
      | some error, _ => ⟨b, some error⟩
      | none, .scalar s => ⟨{ b with leaves := b.leaves ++ [s] }, none⟩
      | none, .branch c =>
        (Item.merge b.children (.branch c)).map fun children => { b with children } := by
  refine ⟨search_isSome_iff, fun _ => clashes_of_search, ?_⟩
  rw [search_eq]
  cases h : (Item.branchContent b).findSome? item.clash? with
  | some error => exact attachUsing_of_clash h
  | none =>
    cases item with
    | scalar s => exact attachUsing_scalar h
    | branch c => exact attachUsing_branch h

/-- A table with an entry that holds two columns. -/
def entryTable : Branch Item :=
  let columns : List Scalar := [{ name := "ifMtu", oid := ⟨[1, 3, 1, 4]⟩, access := .readOnly },
    { name := "ifSpeed", oid := ⟨[1, 3, 1, 5]⟩, access := .readOnly }]
  let entry : Branch Item := { name := "ifEntry", oid := ⟨[1, 3, 1]⟩, leaves := columns }
  { name := "ifTable", oid := ⟨[1, 3]⟩, children := [.branch entry] }

/-- A scalar with the identifier of the entry contains both columns. It is the last one that is
reported. -/
theorem attach_search_overEntry :
    let cover : Item := .scalar { name := "ifIndex", oid := ⟨[1, 3, 1]⟩, access := .readOnly }
    let error : MibError := .leafHasDescendant "ifIndex" "1.3.1" "ifSpeed"
    entryTable.search cover = some error ∧ entryTable.Clashes cover error := by
  intro cover error
  obtain ⟨-, hsound, -⟩ := attach_search entryTable cover
  have hsearch : entryTable.search cover = some error := by
    rw [search_eq]
    decide +kernel
  exact ⟨hsearch, hsound error hsearch⟩

end Branch

end MibDrivers
