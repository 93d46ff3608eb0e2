import MibDrivers.Descriptor.Json

/-!
# Nodes of a dump

A dump lists the nodes of a MIB module by name. A node has one of nine types; five of them
describe branches and scalars, the others describe nothing that a driver could offer.

## Main definitions

* `NodeType` — the types, with the kind of object that each describes
* `Node` — a node
* `Node.ofJson` — reads a node
* `Node.descriptor?` — the object that a node describes
-/

namespace MibDrivers

/-- The type of a node. -/
inductive NodeType where
  | node
  | table
  | row
  | scalar
  | column
  | notification
  | group
  | compliance
  | capabilities
  deriving DecidableEq, Repr

namespace NodeType

/-- The types by name. -/
def names : List (String × NodeType) := [
  ("node", .node), ("table", .table), ("row", .row), ("scalar", .scalar), ("column", .column),
  ("notification", .notification), ("group", .group), ("compliance", .compliance),
  ("capabilities", .capabilities)]

/-- The kind of object that nodes of a type describe. -/
def kind? : NodeType → Option DescriptorKind
  | .node | .table | .row => some .branch
  | .scalar | .column => some .scalar
  | .notification | .group | .compliance | .capabilities => none

/-- Reads a type from its name. -/
def ofJson : Json → Except Json.Mismatch NodeType := Json.expectName names

end NodeType

/-- A node of a dump. -/
structure Node where
  type : NodeType
  oid : Oid
  access : Option String
  description : Option String
  deriving DecidableEq, Repr

namespace Node

/-- Checks one member of an object that stands for a node. Members that are no field are
ignored. -/
def checkMember (name : String) (value : Json) : Except Json.Mismatch Unit :=
  match name with
  | "nodetype" => do let _ ← NodeType.ofJson value
  | "oid" => do let _ ← Json.expectOid value
  | "access" | "description" => do let _ ← Json.expectOptionalString value
  | _ => .ok ()

/-- How a message names an array that stands for a node. -/
def recordText : String := "struct RawNode with 4 elements"

/-- Reads a node. Access and description may be null or missing. -/
def ofJson : Json → Except Json.Mismatch Node
  | .object members => do
    Json.checkMembers checkMember members
    let type ← Json.field members "nodetype" NodeType.ofJson
    let oid ← Json.field members "oid" Json.expectOid
    let access ← Json.optionalField members "access" Json.expectOptionalString
    let description ← Json.optionalField members "description" Json.expectOptionalString
    return { type, oid, access, description }
  | .array items => do
    let type ← Json.item items 0 recordText NodeType.ofJson
    let oid ← Json.item items 1 recordText Json.expectOid
    let access ← Json.optionalItem items 2 Json.expectOptionalString
    let description ← Json.optionalItem items 3 Json.expectOptionalString
    Json.checkLength items 4
    return { type, oid, access, description }
  | value => .error (.wrongShape value "struct RawNode")

/-- The object that a node with the given name describes. -/
def descriptor? (node : Node) (name : String) : Option Descriptor :=
  node.type.kind?.map fun kind => {
    name
    kind
    oid := node.oid
    access := (node.access.map Access.ofText).getD .unspecified
    description := node.description.getD "" }

end Node

end MibDrivers
