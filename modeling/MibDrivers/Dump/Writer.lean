import MibDrivers.Dump.Basic

/-!
# Writing a dump

A dump document for rows of texts. A name that is repeated keeps its first place and takes
its last row; a row with an access text also gets a description.

## Main definitions

* `Dump.Row` — a node as texts
* `Dump.render` — the document that lists rows
-/

namespace MibDrivers.Dump

/-- A node as texts. -/
structure Row where
  name : String
  nodeType : String
  oid : String
  access : String
  deriving DecidableEq, Repr

/-- The node that a row describes. -/
def Row.toJson (row : Row) : Json :=
  let fields := [("nodetype", .string row.nodeType), ("oid", .string row.oid)]
  if row.access.isEmpty then .object fields
  else
    .object (fields ++
      [("access", .string row.access), ("description", .string (row.name ++ " value"))])

/-- The document that declares a module with the nodes of the given rows. -/
def toJson (moduleName : String) (rows : List Row) : Json :=
  .object [
    ("moduleName", .string moduleName),
    ("nodes", .object (Entries.ofList (rows.map fun row => (row.name, row.toJson))))]

/-- The compact text of the document that declares a module with the nodes of the given
rows. -/
def render (moduleName : String) (rows : List Row) : String :=
  (toJson moduleName rows).compact

end MibDrivers.Dump
