import MibDrivers.Oid

/-!
# Object descriptors

A descriptor is one named object of a MIB module: a branch that groups other objects or a
scalar that holds a value.

## Main definitions

* `Access` — how the value of an object may be used
* `DescriptorKind` — branches and scalars
* `Descriptor` — a named object
-/

namespace MibDrivers

/-- How the value of an object may be used. Modes that no accessor supports keep their
text. -/
inductive Access where
  | readOnly
  | readWrite
  | other (text : String)
  deriving DecidableEq, Repr, Inhabited

namespace Access

/-- The mode of an object for which none is given. -/
def unspecified : Access := .other ""

/-- Reads an access mode. Each supported mode has three spellings; blanks around the text
are dropped. -/
def ofText (text : String) : Access :=
  let mode := Text.trim text
  if mode ∈ ["readonly", "read-only", "ReadOnly"] then .readOnly
  else if mode ∈ ["readwrite", "read-write", "ReadWrite"] then .readWrite
  else .other mode

/-- The text of an access mode. -/
def text : Access → String
  | .readOnly => "readonly"
  | .readWrite => "readwrite"
  | .other text => text

end Access

/-- Whether an object groups other objects or holds a value. -/
inductive DescriptorKind where
  | branch
  | scalar
  deriving DecidableEq, Repr, Inhabited

/-- The name of a kind. -/
def DescriptorKind.text : DescriptorKind → String
  | .branch => "branch"
  | .scalar => "scalar"

/-- A named object of a MIB module. -/
structure Descriptor where
  name : String
  kind : DescriptorKind
  oid : Oid
  access : Access := .unspecified
  description : String := ""
  deriving DecidableEq, Repr, Inhabited

end MibDrivers
