import MibDrivers.Dump.Node
import MibDrivers.Json.Document

/-!
# Module dumps

A dump is a JSON document that declares a module and lists its nodes, both of which may be
missing. It is an object, or an array of the module and the nodes. Every node is read, also
one that describes no object, and the first one that cannot be read is reported.

## Main definitions

* `Dump` — a module name and the objects it declares
* `DumpError` — why a dump is refused
* `Dump.ofText` — reads a dump
-/

namespace MibDrivers

/-- What a dump document says: the name of the module and its objects in document order. -/
structure Dump where
  moduleName : Option String
  descriptors : Option (List Descriptor)
  deriving DecidableEq, Repr

/-- Why a dump is refused. -/
inductive DumpError where
  /-- The text is no dump document. -/
  | malformed
  /-- A node cannot be read. -/
  | node (name : String) (cause : Json.Mismatch)

/-- The wording of an error. Which rule a malformed document breaks is not told. -/
def DumpError.message : DumpError → String
  | .malformed => "<json>"
  | .node name cause => "node " ++ name ++ ": " ++ cause.message

namespace Dump

open Json (Document)

/-- The outline of a dump document, before its nodes are read. -/
structure Outline where
  moduleName : Option String
  nodes : Option (Entries String Json)

/-- The module name: a string, or null for none. -/
def moduleName? : Document → Option (Option String)
  | .null => some none
  | .string text => text.map some
  | _ => none

/-- The nodes: an object, or null for none. They are one level below the document, which
counts as a level itself. -/
def nodes? : Document → Option (Option (Entries String Json))
  | .null => some none
  | .object members =>
    match Document.value? (Document.maxDepth - 1) (.object members) with
    | some (.object nodes) => some (some nodes)
    | _ => none
  | _ => none

/-- The only member with the given name, read by `read`; nothing for a member that is
missing, and a failure for one that is repeated. -/
def single? {α : Type} (members : List (Option String × Document)) (name : String)
    (read : Document → Option (Option α)) : Option (Option α) :=
  match members.filter fun (key, _) => key == some name with
  | [] => some none
  | [(_, value)] => read value
  | _ => none

/-- The outline of a document. Members with other names are ignored, but every name must
denote a text. -/
def outline? : Document → Option Outline
  | .object members => do
    if members.any fun (key, _) => key.isNone then none
    let moduleName ← single? members "moduleName" moduleName?
    let nodes ← single? members "nodes" nodes?
    return { moduleName, nodes }
  | .array [] => some { moduleName := none, nodes := none }
  | .array [first] => do
    return { moduleName := ← moduleName? first, nodes := none }
  | .array [first, second] => do
    return { moduleName := ← moduleName? first, nodes := ← nodes? second }
  | _ => none

/-- The objects that nodes describe, in their order. -/
def readNodes : Entries String Json → Except DumpError (List Descriptor)
  | [] => .ok []
  | (name, value) :: rest => do
    let node ← (Node.ofJson value).mapError (DumpError.node name)
    let descriptors ← readNodes rest
    return (node.descriptor? name).toList ++ descriptors

/-- Reads a dump. -/
def ofText (text : String) : Except DumpError Dump :=
  match (Document.ofText? text).bind outline? with
  | none => .error .malformed
  | some outline =>
    match outline.nodes with
    | none => .ok { moduleName := outline.moduleName, descriptors := none }
    | some nodes => do
      let descriptors ← readNodes nodes
      return { moduleName := outline.moduleName, descriptors := some descriptors }

end Dump

end MibDrivers
