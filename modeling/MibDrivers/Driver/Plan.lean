import MibDrivers.Forest.Basic
import MibDrivers.Naming.Identifier
import MibDrivers.Naming.Registry

/-!
# Planning a driver

A driver has one class for each branch of a forest and a root class for the top level. The
members of a class offer what its branch holds directly: a leaf is read or read and written,
a child branch leads to its class. A plan lists the classes, each branch before the ones
below it, and the root class last.

Class names come from one registry, in which the names of the runtime types and of the root
class are reserved. A branch takes its name before the branches below it take theirs. Method
names are distinct within their class.

## Main definitions

* `Driver.Options` — what the user may choose
* `Driver.Class`, `Driver.Member` — what a plan consists of
* `Driver.plan` — the plan for a forest
-/

namespace MibDrivers.Driver

/-- The type that carries the invocation context. -/
def contextType : String := "SnmpContext"

/-- The trait of the root class. -/
def driverTrait : String := "SnmpDriver"

/-- The type of an accessor that reads. -/
def readOnlyType : String := "RoLeaf"

/-- The type of an accessor that reads and writes. -/
def readWriteType : String := "RwLeaf"

/-- The types that the generated source takes from its runtime. -/
def runtimeTypes : List String := [contextType, driverTrait, readOnlyType, readWriteType]

/-- What the user may choose about the generated source: the name of the root class, the
path from which the runtime types come, and the module that the header names. -/
structure Options where
  rootName : String := "MibDriver"
  runtimePath : String := "crate::snmp"
  moduleName : Option String := none
  deriving DecidableEq, Repr, Inhabited

/-- Whether a class stands for the top level, for a branch with child branches, or for a
branch without. -/
inductive ClassKind where
  | root
  | group
  | leaves
  deriving DecidableEq, Repr

/-- How a leaf may be used. -/
inductive LeafKind where
  | readOnly
  | readWrite
  deriving DecidableEq, Repr

/-- The type of the accessor for a leaf. -/
def LeafKind.typeName : LeafKind → String
  | .readOnly => readOnlyType
  | .readWrite => readWriteType

/-- What a member leads to. -/
inductive Target where
  | child (name : String)
  | leaf (kind : LeafKind) (oid : Oid)
  deriving DecidableEq, Repr

/-- A method of a class. -/
structure Member where
  method : String
  target : Target
  description : String
  deriving DecidableEq, Repr

/-- A class of a driver. The root class has no identifier. -/
structure Class where
  name : String
  kind : ClassKind
  oid : Option Oid
  description : String
  members : List Member
  deriving DecidableEq, Repr

/-- The first member with the given method name. -/
def Class.member? (c : Class) (method : String) : Option Member :=
  c.members.find? (·.method = method)

/-- The method names of a class before it has members. -/
def methodNames : NameRegistry := NameRegistry.empty.reserve [Naming.constructor]

/-- The member for a scalar, and the method names with its own. -/
def planScalar (methods : NameRegistry) (s : Scalar) : Except MibError (Member × NameRegistry) :=
  let offer (kind : LeafKind) :=
    let (method, methods) := methods.allocate (Naming.methodName s.name)
    .ok ({ method, target := .leaf kind s.oid, description := s.description }, methods)
  match s.access with
  | .readOnly => offer .readOnly
  | .readWrite => offer .readWrite
  | .other access => .error (.unsupportedAccess s.name access)

/-- The members for leaves, and the method names with theirs. -/
def planLeaves (methods : NameRegistry) :
    List Scalar → Except MibError (List Member × NameRegistry)
  | [] => .ok ([], methods)
  | s :: rest => do
    let (member, methods) ← planScalar methods s
    let (members, methods) ← planLeaves methods rest
    return (member :: members, methods)

/-- The plan for siblings: their members, the classes for the branches among and below
them, and the class names with those of these classes. -/
structure SiblingPlan where
  members : List Member
  classes : List Class
  names : NameRegistry

/-- The plan for a branch: the name of its class, this class and those for the branches
below it, and the class names with those of these classes. -/
structure BranchPlan where
  name : String
  classes : List Class
  names : NameRegistry

mutual

/-- The plan for a branch. -/
def planBranch (names : NameRegistry) : Branch Item → Except MibError BranchPlan
  | ⟨branchName, oid, description, leaves, children⟩ => do
    let (name, names) := names.allocate (Naming.className branchName)
    let (leafMembers, methods) ← planLeaves methodNames leaves
    let below ← planSiblings names methods children
    let kind : ClassKind :=
      if children.any (·.branch?.isSome) then .group else .leaves
    let own : Class :=
      { name, kind, oid := some oid, description, members := leafMembers ++ below.members }
    return { name, classes := own :: below.classes, names := below.names }

/-- The plan for siblings, where `methods` are the method names that their class has so
far. -/
def planSiblings (names methods : NameRegistry) : List Item → Except MibError SiblingPlan
  | [] => .ok { members := [], classes := [], names }
  | .scalar s :: rest => do
    let (member, methods) ← planScalar methods s
    let others ← planSiblings names methods rest
    return { others with members := member :: others.members }
  | .branch b :: rest => do
    let planned ← planBranch names b
    let (method, methods) := methods.allocate (Naming.methodName b.name)
    let member : Member :=
      { method, target := .child planned.name, description := b.description }
    let others ← planSiblings planned.names methods rest
    return { others with
      members := member :: others.members
      classes := planned.classes ++ others.classes }

end

/-- The class names before any class is planned. -/
def classNames (options : Options) : NameRegistry :=
  (NameRegistry.empty.reserve runtimeTypes).reserve [options.rootName]

/-- The plan for a forest. -/
def plan (options : Options) (forest : Forest) : Except MibError (List Class) := do
  let planned ← planSiblings (classNames options) methodNames forest.roots
  let root : Class :=
    { name := options.rootName
      kind := .root
      oid := none
      description := ""
      members := planned.members }
  return planned.classes ++ [root]

end MibDrivers.Driver
