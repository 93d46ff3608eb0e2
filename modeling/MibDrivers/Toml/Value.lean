/-!
# TOML values and tables

Settings use strings, lists of strings and tables. Numbers, booleans and dates occur only
where a document sets something that nobody asks for, so their values are not kept.

While a document is read, its tables know how they came about, because that decides who may
still add to them. A table that only lies on the way to another one is implicit; a header
may still define it. A table that a dotted key made is also dotted; further dotted keys may
add to it, and a header may not define it again.

## Main definitions

* `Toml.Value` — values
* `Toml.Table`, `Toml.Node` — tables while a document is read
* `Toml.Table.assign?` — the table with a key set
* `Toml.Table.define?`, `Toml.Table.extend?` — the table with a table, or a further element
  of an array of tables, that a header opens
-/

namespace MibDrivers.Toml

/-- A value. A date counts as a table without entries, because it is none of the other
kinds of value and holds no option. -/
inductive Value where
  /-- A number or a boolean. -/
  | atom
  | string (text : String)
  | list (items : List Value)
  | table (entries : List (String × Value))
  deriving Repr, Inhabited

/-- A table with its entries in the order of their keys' first arrival. -/
structure Table (α : Type) where
  /-- The table was not defined by a header of its own. -/
  implicit : Bool := false
  /-- The table was made by a dotted key. -/
  dotted : Bool := false
  entries : List (String × α) := []
  deriving Repr, Inhabited

/-- What a key of a table stands for. -/
inductive Node where
  | value (value : Value)
  | table (table : Table Node)
  | tables (elements : List (Table Node))
  deriving Repr, Inhabited

namespace Node

mutual

/-- The value that a node has in the end. -/
def toValue : Node → Value
  | .value v => v
  | .table child => tableValue child
  | .tables elements => .list (elementValues elements)

/-- The value that a table has in the end. -/
def tableValue : Table Node → Value
  | ⟨_, _, entries⟩ => .table (entryValues entries)

/-- The values that the entries of a table have in the end. -/
def entryValues : List (String × Node) → List (String × Value)
  | [] => []
  | (key, node) :: rest => (key, toValue node) :: entryValues rest

/-- The values that the elements of an array of tables have in the end. -/
def elementValues : List (Table Node) → List Value
  | [] => []
  | element :: rest => tableValue element :: elementValues rest

end

end Node

namespace Table

/-- The entry of a key. -/
def find? (table : Table Node) (key : String) : Option Node := table.entries.lookup key

/-- The table with the entry of a key replaced or added. -/
def set (table : Table Node) (key : String) (node : Node) : Table Node :=
  { table with entries := table.entries.filter (·.1 ≠ key) ++ [(key, node)] }

/-- Changes the table at the end of a path. Tables that are missing on the way are made; an
array of tables leads to its last element. A path of a dotted key enters no table that a
header defined. -/
def updateAt? (dotted : Bool) (change : Table Node → Option (Table Node)) :
    List String → Table Node → Option (Table Node)
  | [], table => change table
  | key :: path, table =>
    match table.find? key with
    | none => do
      let child ← updateAt? dotted change path { implicit := true, dotted }
      return table.set key (.table child)
    | some (.table child) => do
      if dotted && !child.implicit then none
      let child ← updateAt? dotted change path child
      return table.set key (.table child)
    | some (.tables elements) => do
      let last ← elements.getLast?
      let last ← updateAt? dotted change path last
      return table.set key (.tables (elements.dropLast ++ [last]))
    | some (.value _) => none

/-- The table with a key set that is given by the path before it and its last part. The
last part must be new, and a path must end in a table that dotted keys made. -/
def assign? (table : Table Node) (path : List String) (key : String) (value : Value) :
    Option (Table Node) :=
  table.updateAt? true (fun target =>
    if target.dotted = path.isEmpty || (target.find? key).isSome then none
    else some (target.set key (.value value))) path

/-- The table with keys set one after another. -/
def assignAll? (table : Table Node) (assignments : List (List String × String × Value)) :
    Option (Table Node) :=
  assignments.foldlM (fun table (path, key, value) => table.assign? path key value) table

/-- The table with the table that a header opens and the keys that follow it. A header may
define a table that is new or only lay on the way to another. -/
def define? (table : Table Node) (path : List String) (key : String)
    (assignments : List (List String × String × Value)) : Option (Table Node) :=
  table.updateAt? false (fun parent => do
    let start ← match parent.find? key with
      | none => some {}
      | some (.table child) => if child.implicit && !child.dotted then some child else none
      | some _ => none
    let child ← { start with implicit := false }.assignAll? assignments
    return parent.set key (.table child)) path

/-- The table with a further element of the array of tables that a header names, and the
keys that follow it. -/
def extend? (table : Table Node) (path : List String) (key : String)
    (assignments : List (List String × String × Value)) : Option (Table Node) :=
  table.updateAt? false (fun parent => do
    let elements ← match parent.find? key with
      | none => some []
      | some (.tables elements) => some elements
      | some _ => none
    let element ← ({} : Table Node).assignAll? assignments
    return parent.set key (.tables (elements ++ [element]))) path

end Table

end MibDrivers.Toml
