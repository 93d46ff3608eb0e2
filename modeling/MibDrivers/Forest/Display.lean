import MibDrivers.Forest.Basic

/-!
# Displaying a forest

A forest is displayed below a label, one line for each node. A line shows where its node
hangs: a marker that tells the last sibling from the others, and before it a cell for each
branch above, blank below a last sibling and with a bar below another.

## Main definitions

* `Forest.display` — the lines of a forest below a label
-/

namespace MibDrivers

namespace Item

/-- The marker of a node. -/
def marker (last : Bool) : List Char := if last then "└── ".toList else "├── ".toList

/-- The cell below a node. -/
def cell (last : Bool) : List Char := if last then "    ".toList else "│   ".toList

/-- What a line says about a scalar. -/
def scalarLabel (s : Scalar) : List Char :=
  s.text.toList ++ " [".toList ++ s.access.text.toList ++ "]".toList

/-- The lines of leaves. The last leaf is a last sibling if `closing`. -/
def leavesDisplay (indent : List Char) (closing : Bool) : List Scalar → List Char
  | [] => []
  | s :: rest =>
    indent ++ marker (closing && rest.isEmpty) ++ scalarLabel s ++
      '\n' :: leavesDisplay indent closing rest

mutual

/-- The lines of an item. -/
def display (indent : List Char) (last : Bool) : Item → List Char
  | .branch b => branchDisplay indent last b
  | .scalar s => indent ++ marker last ++ scalarLabel s ++ ['\n']

/-- The lines of a branch. -/
def branchDisplay (indent : List Char) (last : Bool) : Branch Item → List Char
  | ⟨name, oid, _, leaves, children⟩ =>
    indent ++ marker last ++ name.toList ++ " (".toList ++ oid.dottedChars ++ ")\n".toList ++
      leavesDisplay (indent ++ cell last) children.isEmpty leaves ++
      siblingsDisplay (indent ++ cell last) children

/-- The lines of siblings, the last of which is a last sibling. -/
def siblingsDisplay (indent : List Char) : List Item → List Char
  | [] => []
  | item :: rest => display indent rest.isEmpty item ++ siblingsDisplay indent rest

end

end Item

/-- The lines of a forest below a label. -/
def Forest.display (label : String) (forest : Forest) : String :=
  String.ofList (label.toList ++ '\n' :: Item.siblingsDisplay [] forest.roots)

end MibDrivers
