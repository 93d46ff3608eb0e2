import Mathlib.Data.List.Nodup
import MibDrivers.Forest.Display
import MibDrivers.Proofs.Forest.Preorder

/-!
# The lines of a displayed forest

A forest is displayed by recursion, where each line inherits the indentation of the branch above
it. The visits of the forest know nothing of indentation. The two meet in the positions of the
nodes. A position is the way down to a node, and it tells for the node and for each branch above it
which siblings come before and which come after. Siblings may be equal, so a node alone does not
tell whether it is the last one. The members of a branch are siblings, its leaves before its
children.

What a line shows follows from its position: one cell for each branch above, blank below the last
of siblings, then the marker, and then what the node says about itself.

## Main definitions

* `Among` — a node among its siblings
* `Position` — a node with the way down to it
* `Forest.Leads` — the forest has a node at a position
* `Forest.positions` — the positions of all nodes, in the order of the visits
* `Position.line` — the line of a position

## Main results

* `Forest.mem_positions_iff`, `Forest.nodup_positions` — every position is listed, and none twice
* `Forest.map_positions` — the listed positions are those of the visits
* `Item.display_lines`, `Forest.display_lists` — what is displayed are the lines of the positions
-/

namespace MibDrivers

/-! ### Positions -/

/-- A node among its siblings. -/
structure Among (α : Type) where
  before : List Item
  node : α
  after : List Item

/-- The branches above a node, the innermost first, each among its siblings. -/
abbrev Descent := List (Among (Branch Item))

/-- The branches above a node without their siblings. -/
def Descent.branches (above : Descent) : List (Branch Item) := above.map (·.node)

/-- A node among its siblings, with the branches above it. -/
structure Position where
  above : Descent
  here : Among Item

namespace Among

variable {a : Among Item}

/-- The siblings, with the node at its position. -/
def siblings (a : Among Item) : List Item := a.before ++ a.node :: a.after

theorem node_mem_siblings (a : Among Item) : a.node ∈ a.siblings :=
  List.mem_append_cons_self

/-- A branch among its siblings, as one of the items. -/
def item (p : Among (Branch Item)) : Among Item := ⟨p.before, .branch p.node, p.after⟩

/-- The items of a list, each among its siblings, if some siblings come before the list. -/
def among (before : List Item) : List Item → List (Among Item)
  | [] => []
  | x :: rest => ⟨before, x, rest⟩ :: among (before ++ [x]) rest

theorem among_append (before first second : List Item) :
    among before (first ++ second) =
      (among before first).map (fun a => { a with after := a.after ++ second }) ++
        among (before ++ first) second := by
  induction first generalizing before with
  | nil => simp [among]
  | cons x rest ih => simp [among, ih]

theorem map_node_among (before siblings : List Item) :
    (among before siblings).map (·.node) = siblings := by
  induction siblings generalizing before with
  | nil => rfl
  | cons x rest ih => rw [among, List.map_cons, ih]

theorem mem_among {before siblings : List Item} :
    a ∈ among before siblings ↔
      ∃ passed, a.before = before ++ passed ∧ siblings = passed ++ a.node :: a.after := by
  induction siblings generalizing before with
  | nil => simp [among]
  | cons x rest ih =>
    rw [among, List.mem_cons, ih]
    constructor
    · rintro (rfl | ⟨passed, hbefore, hrest⟩)
      · exact ⟨[], by simp⟩
      · exact ⟨x :: passed, by simp [hbefore], by simp [hrest]⟩
    · rintro ⟨_ | ⟨y, passed⟩, hbefore, hsiblings⟩
      · obtain ⟨rfl, rfl⟩ := List.cons.inj hsiblings
        obtain ⟨_, _, _⟩ := a
        obtain rfl : _ = before ++ [] := hbefore
        exact .inl (by simp)
      · obtain ⟨rfl, rfl⟩ := List.cons.inj hsiblings
        exact .inr ⟨passed, by simp [hbefore], rfl⟩

theorem mem_among_nil {siblings : List Item} : a ∈ among [] siblings ↔ a.siblings = siblings := by
  rw [mem_among, Among.siblings]
  constructor
  · rintro ⟨passed, hbefore, hsiblings⟩
    rw [hbefore, hsiblings, List.nil_append]
  · intro h
    exact ⟨a.before, rfl, h.symm⟩

/-- No two items of a list have the same siblings before them. -/
theorem nodup_among (before siblings : List Item) : (among before siblings).Nodup := by
  induction siblings generalizing before with
  | nil => exact List.nodup_nil
  | cons x rest ih =>
    rw [among, List.nodup_cons]
    refine ⟨fun hmem => ?_, ih _⟩
    obtain ⟨passed, hbefore, -⟩ := mem_among.mp hmem
    simpa using congrArg List.length hbefore

end Among

namespace Position

/-- The node below the branches above it, without its siblings. -/
def located (p : Position) : Located := ⟨p.above.branches, p.here.node⟩

/-- The way down to the node, from its own position up. -/
def way (p : Position) : List (Among Item) := p.here :: p.above.map Among.item

end Position

namespace Item

variable {item : Item} {b : Branch Item} {siblings before after : List Item} {position : Position}
  {above outer : Descent} {p : Among (Branch Item)} {a : Among Item}

/-! ### The positions of the nodes -/

mutual

/-- The positions of an item, which has the given siblings, and of all that is below it. -/
def positions (above : Descent) (before after : List Item) : Item → List Position
  | .branch b => ⟨above, before, .branch b, after⟩ :: branchPositions above before after b
  | .scalar s => [⟨above, before, .scalar s, after⟩]
termination_by structural item => item

/-- The positions below a branch, which has the given siblings. -/
def branchPositions (above : Descent) (before after : List Item) :
    Branch Item → List Position
  | ⟨name, oid, description, leaves, children⟩ =>
    let inner := ⟨before, ⟨name, oid, description, leaves, children⟩, after⟩ :: above
    (Among.among [] (leaves.map .scalar)).map
        (fun a => ⟨inner, a.before, a.node, a.after ++ children⟩) ++
      positionsOf inner (leaves.map .scalar) children
termination_by structural b => b

/-- The positions of siblings, before which there are others, and of all that is below them. -/
def positionsOf (above : Descent) (before : List Item) : List Item → List Position
  | [] => []
  | item :: rest => item.positions above before rest ++ positionsOf above (before ++ [item]) rest
termination_by structural siblings => siblings

end

theorem positionsOf_eq_flatMap (above : Descent) (before siblings : List Item) :
    positionsOf above before siblings =
      (Among.among before siblings).flatMap fun a => a.node.positions above a.before a.after := by
  induction siblings generalizing before with
  | nil => rfl
  | cons item rest ih => rw [positionsOf, ih, Among.among, List.flatMap_cons]

/-- The position of a branch comes before those of its members. -/
theorem positions_branch (above : Descent) (before after : List Item)
    (b : Branch Item) :
    (Item.branch b).positions above before after =
      ⟨above, before, .branch b, after⟩ ::
        positionsOf (⟨before, b, after⟩ :: above) [] b.members := by
  obtain ⟨name, oid, description, leaves, children⟩ := b
  -- A leaf has no position below it.
  have hleaves : ∀ a ∈ Among.among [] (leaves.map Item.scalar), ∀ inner,
      a.node.positions inner a.before (a.after ++ children) =
        [⟨inner, a.before, a.node, a.after ++ children⟩] := by
    intro a ha inner
    have hmem : a.node ∈ leaves.map Item.scalar := by
      rw [← Among.map_node_among [] (leaves.map Item.scalar)]
      exact List.mem_map_of_mem ha
    obtain ⟨s, -, hs⟩ := List.mem_map.mp hmem
    rw [← hs, positions]
  rw [positions, branchPositions, Branch.members, positionsOf_eq_flatMap _ [], Among.among_append,
    List.flatMap_append, List.flatMap_map, List.flatMap_congr fun a ha => hleaves a ha _,
    ← List.map_eq_flatMap, List.nil_append, positionsOf_eq_flatMap]

theorem mem_positions_self (above : Descent) (a : Among Item) :
    ⟨above, a⟩ ∈ a.node.positions above a.before a.after := by
  obtain ⟨before, item, after⟩ := a
  cases item with
  | scalar s => rw [positions]; exact List.mem_cons_self
  | branch b => rw [positions_branch]; exact List.mem_cons_self

theorem mem_positionsOf {siblings : List Item} :
    position ∈ positionsOf above [] siblings ↔
      ∃ a : Among Item, a.siblings = siblings ∧
        position ∈ a.node.positions above a.before a.after := by
  simp only [positionsOf_eq_flatMap, List.mem_flatMap, Among.mem_among_nil]

/-- Below a branch at a listed position, the positions of its members are listed. -/
theorem mem_positions_of_siblings (h : ⟨outer, p.item⟩ ∈ item.positions above before after)
    (ha : a.siblings = p.node.members) : ⟨p :: outer, a⟩ ∈ item.positions above before after := by
  induction item using inductMembers generalizing above before after with
  | scalar s =>
    rw [positions, List.mem_singleton] at h
    cases h
  | branch c ih =>
    rw [positions_branch, List.mem_cons, mem_positionsOf] at h ⊢
    right
    rcases h with hself | ⟨member, hmember, hbelow⟩
    · -- The position of the branch is that of the item itself.
      obtain ⟨_, _, _⟩ := p
      cases hself
      exact ⟨a, ha, mem_positions_self _ a⟩
    · have hmem : member.node ∈ c.members := hmember ▸ member.node_mem_siblings
      exact ⟨member, hmember, ih _ hmem hbelow⟩

/-- The way down to a position of an item leads through the item. -/
theorem way_of_mem_positions (h : position ∈ item.positions above before after) :
    ⟨before, item, after⟩ :: above.map Among.item <:+ position.way := by
  induction item using inductMembers generalizing above before after with
  | scalar s =>
    rw [positions, List.mem_singleton] at h
    exact h ▸ List.suffix_refl _
  | branch b ih =>
    rw [positions_branch, List.mem_cons, mem_positionsOf] at h
    rcases h with rfl | ⟨member, hmember, hbelow⟩
    · exact List.suffix_refl _
    · have hmem : member.node ∈ b.members := hmember ▸ member.node_mem_siblings
      exact (List.suffix_cons member _).trans (ih _ hmem hbelow)

/-- The positions of siblings differ if those of each sibling do. -/
theorem nodup_positionsOf_of
    (h : ∀ item ∈ siblings, ∀ before after, (item.positions above before after).Nodup) :
    (positionsOf above [] siblings).Nodup := by
  rw [positionsOf_eq_flatMap, List.nodup_flatMap]
  constructor
  · intro a ha
    refine h a.node ?_ _ _
    exact Among.mem_among_nil.mp ha ▸ a.node_mem_siblings
  · refine (Among.nodup_among [] siblings).imp fun {a c} hne => ?_
    -- Two ways of one length lead to the position, so they are one way.
    intro position ha hc
    have hways := List.suffix_of_suffix_length_le (way_of_mem_positions ha)
      (way_of_mem_positions hc) le_rfl
    exact hne (List.cons.inj (hways.eq_of_length rfl)).1

theorem nodup_positions (item : Item) (above : Descent)
    (before after : List Item) : (item.positions above before after).Nodup := by
  induction item using inductMembers generalizing above before after with
  | scalar s =>
    rw [positions]
    exact List.nodup_singleton _
  | branch b ih =>
    rw [positions_branch, List.nodup_cons]
    refine ⟨fun hself => ?_, nodup_positionsOf_of fun item hitem => ih item hitem _⟩
    obtain ⟨member, -, hbelow⟩ := mem_positionsOf.mp hself
    have hlength := (way_of_mem_positions hbelow).length_le
    simp only [Position.way, List.map_cons, List.length_cons] at hlength
    omega

theorem map_positionsOf_of
    (h : ∀ item ∈ siblings, ∀ above before after,
      (item.positions above before after).map Position.located = item.preorder above.branches) :
    (positionsOf above before siblings).map Position.located =
      preorderOf above.branches siblings := by
  induction siblings generalizing before with
  | nil => rfl
  | cons item rest ih =>
    rw [positionsOf, preorderOf, List.map_append, h item List.mem_cons_self,
      ih fun other hother => h other (List.mem_cons_of_mem _ hother)]

/-- The positions are those of the nodes in their order. -/
theorem map_positions (item : Item) (above : Descent) (before after : List Item) :
    (item.positions above before after).map Position.located = item.preorder above.branches := by
  induction item using inductMembers generalizing above before after with
  | scalar s => rfl
  | branch b ih =>
    rw [positions_branch, List.map_cons, map_positionsOf_of ih, preorder_branch,
      preorderOf_eq_flatMap]
    rfl

end Item

namespace Forest

variable {forest : Forest} {position : Position}

/-- The positions of all nodes, in the order of the visits. -/
def positions (forest : Forest) : List Position := Item.positionsOf [] [] forest.roots

/-- A forest has a node at a position: the node is among the top-level items, or among the members
of the branch above it, which the forest has at its own position. -/
inductive Leads (forest : Forest) : Position → Prop
  | root {a : Among Item} (h : a.siblings = forest.roots) : Leads forest ⟨[], a⟩
  | member {above : Descent} {p : Among (Branch Item)} {a : Among Item}
      (hp : Leads forest ⟨above, p.item⟩) (h : a.siblings = p.node.members) :
      Leads forest ⟨p :: above, a⟩

theorem leads_of_mem_positions {above : Descent} {before after : List Item}
    {item : Item} (hitem : forest.Leads ⟨above, before, item, after⟩)
    (h : position ∈ item.positions above before after) : forest.Leads position := by
  induction item using Item.inductMembers generalizing above before after with
  | scalar s =>
    rw [Item.positions, List.mem_singleton] at h
    exact h ▸ hitem
  | branch b ih =>
    rw [Item.positions_branch, List.mem_cons, Item.mem_positionsOf] at h
    rcases h with rfl | ⟨member, hmember, hbelow⟩
    · exact hitem
    · have hmem : member.node ∈ b.members := hmember ▸ member.node_mem_siblings
      exact ih _ hmem (.member (p := ⟨before, b, after⟩) hitem hmember) hbelow

/-- The positions that are listed are those at which the forest has nodes. -/
theorem mem_positions_iff : position ∈ forest.positions ↔ forest.Leads position := by
  rw [positions]
  constructor
  · intro h
    obtain ⟨root, hroot, hmem⟩ := Item.mem_positionsOf.mp h
    exact leads_of_mem_positions (.root hroot) hmem
  · intro h
    rw [Item.mem_positionsOf]
    induction h with
    | @root a h => exact ⟨a, h, Item.mem_positions_self [] a⟩
    | member _ h ih =>
      obtain ⟨root, hroot, hmem⟩ := ih
      exact ⟨root, hroot, Item.mem_positions_of_siblings hmem h⟩

/-- No position is listed twice. -/
theorem nodup_positions (forest : Forest) : forest.positions.Nodup :=
  Item.nodup_positionsOf_of fun item _ => item.nodup_positions []

/-- The positions are those of the visits, in their order. -/
theorem map_positions (forest : Forest) :
    forest.positions.map (·.located.visit) = forest.visits := by
  have hlocated : forest.positions.map Position.located = forest.preorder :=
    Item.map_positionsOf_of fun item _ => item.map_positions
  rw [visits_eq, ← hlocated, List.map_map]
  rfl

end Forest

/-! ### The lines -/

/-- What a line says about a node. -/
def Item.label : Item → String
  | .branch b => b.name ++ " (" ++ b.oid.dotted ++ ")"
  | .scalar s => s.name ++ " (" ++ s.oid.dotted ++ ") [" ++ s.access.text ++ "]"

/-- The cells of a line, one for each branch above the node: blank below the last of siblings, and
with a bar below another. -/
def Position.cells (p : Position) : List String :=
  p.above.reverse.map fun a => if a.after = [] then "    " else "│   "

/-- The marker of a line, which tells whether the node is the last of its siblings. -/
def Position.marker (p : Position) : String := if p.here.after = [] then "└── " else "├── "

/-- The line of a position: the cells, the marker, and what the node says about itself. -/
def Position.line (p : Position) : String :=
  String.join p.cells ++ p.marker ++ p.here.node.label ++ "\n"

namespace Item

variable {siblings : List Item} {above : Descent} {indent : List Char}

/-- The indentation below branches. -/
def indentBelow (above : Descent) : List Char :=
  above.reverse.flatMap fun a => cell a.after.isEmpty

theorem indentBelow_cons (p : Among (Branch Item)) (above : Descent) :
    indentBelow (p :: above) = indentBelow above ++ cell p.after.isEmpty := by
  simp [indentBelow]

/-- The line of a position begins with the indentation below the branches above. -/
theorem toList_line (above : Descent) (a : Among Item) :
    (Position.line ⟨above, a⟩).toList =
      indentBelow above ++ marker a.after.isEmpty ++ a.node.label.toList ++ ['\n'] := by
  have hcells : (String.join (Position.cells ⟨above, a⟩)).toList = indentBelow above := by
    rw [String.toList_join, Position.cells, List.flatMap_map, indentBelow]
    simp only [apply_ite String.toList, cell, List.isEmpty_iff]
  have hmarker : (Position.marker ⟨above, a⟩).toList = marker a.after.isEmpty := by
    simp only [Position.marker, apply_ite String.toList, marker, List.isEmpty_iff]
  rw [Position.line, String.toList_append, String.toList_append, String.toList_append, hcells,
    hmarker]
  rfl

theorem display_scalar (indent : List Char) (last : Bool) (s : Scalar) :
    display indent last (.scalar s) =
      indent ++ marker last ++ (Item.scalar s).label.toList ++ ['\n'] := by
  simp [display, scalarLabel, Scalar.text, label]

/-- Leaves are displayed as the first of siblings. -/
theorem siblingsDisplay_scalars_append (indent : List Char) (leaves : List Scalar)
    (children : List Item) :
    siblingsDisplay indent (leaves.map .scalar ++ children) =
      leavesDisplay indent children.isEmpty leaves ++ siblingsDisplay indent children := by
  induction leaves with
  | nil => rfl
  | cons s rest ih =>
    have hlast : (rest.map Item.scalar ++ children).isEmpty =
        (children.isEmpty && rest.isEmpty) := by
      cases rest <;> simp
    rw [List.map_cons, List.cons_append, siblingsDisplay, ih, display, hlast, leavesDisplay]
    simp

/-- The line of a branch is followed by its members as siblings. -/
theorem display_branch (indent : List Char) (last : Bool) (b : Branch Item) :
    display indent last (.branch b) =
      indent ++ marker last ++ (Item.branch b).label.toList ++ ['\n'] ++
        siblingsDisplay (indent ++ cell last) b.members := by
  obtain ⟨name, oid, description, leaves, children⟩ := b
  rw [display, branchDisplay, Branch.members, siblingsDisplay_scalars_append]
  simp [label, Oid.dotted]

theorem siblingsDisplay_lines_of (above : Descent) (before : List Item)
    (h : ∀ item ∈ siblings, ∀ above before after,
      display (indentBelow above) after.isEmpty item =
        (item.positions above before after).flatMap fun position => position.line.toList) :
    siblingsDisplay (indentBelow above) siblings =
      (positionsOf above before siblings).flatMap fun position => position.line.toList := by
  induction siblings generalizing before with
  | nil => rfl
  | cons item rest ih =>
    rw [siblingsDisplay, positionsOf, List.flatMap_append,
      h item List.mem_cons_self above before rest,
      ih (before ++ [item]) fun other hother => h other (List.mem_cons_of_mem _ hother)]

/-- An item is displayed by the lines of its positions. -/
theorem display_lines (item : Item) (above : Descent)
    (before after : List Item) :
    display (indentBelow above) after.isEmpty item =
      (item.positions above before after).flatMap fun position => position.line.toList := by
  induction item using inductMembers generalizing above before after with
  | scalar s => rw [display_scalar, positions, List.flatMap_singleton, toList_line]
  | branch b ih =>
    -- The members are indented below the branch, whose cell tells whether siblings follow it.
    have hmembers := siblingsDisplay_lines_of (⟨before, b, after⟩ :: above) [] ih
    rw [indentBelow_cons] at hmembers
    rw [display_branch, hmembers, positions_branch, List.flatMap_cons, toList_line]

end Item

namespace Forest

/-- The display of a forest is the line of its label and then one line for each position, in the
order of the visits. Every position is listed, and none twice. -/
theorem display_lists (label : String) (forest : Forest) :
    forest.display label = label ++ "\n" ++ String.join (forest.positions.map Position.line) ∧
      forest.positions.map (·.located.visit) = forest.visits ∧
      (∀ position, position ∈ forest.positions ↔ forest.Leads position) ∧
      forest.positions.Nodup := by
  refine ⟨?_, map_positions forest, fun _ => mem_positions_iff, nodup_positions forest⟩
  have hlines : Item.siblingsDisplay [] forest.roots =
      forest.positions.flatMap fun position => position.line.toList :=
    Item.siblingsDisplay_lines_of [] [] fun item _ => item.display_lines
  apply String.toList_injective
  rw [display, String.toList_ofList, hlines, String.toList_append, String.toList_append,
    String.toList_join, List.flatMap_map, List.append_assoc]
  rfl

/-- Of two equal leaves below the last branch, which has a child, none is the last sibling. -/
example :
    let leaf : Scalar := { name := "ifMtu", oid := ⟨[1, 3, 1]⟩, access := .readOnly }
    let entry : Branch Item := { name := "ifEntry", oid := ⟨[1, 3, 2]⟩, leaves := [leaf] }
    let table : Branch Item :=
      { name := "ifTable", oid := ⟨[1, 3]⟩, leaves := [leaf, leaf], children := [.branch entry] }
    Forest.display "IF-MIB" ⟨[.branch table]⟩ =
      "IF-MIB\n" ++
      "└── ifTable (1.3)\n" ++
      "    ├── ifMtu (1.3.1) [readonly]\n" ++
      "    ├── ifMtu (1.3.1) [readonly]\n" ++
      "    └── ifEntry (1.3.2)\n" ++
      "        └── ifMtu (1.3.1) [readonly]\n" := by
  decide +kernel

end Forest

end MibDrivers
