import MibDrivers.Descriptor

/-!
# The system group

Every agent offers the `system` group of MIB-2, which describes the agent itself. It is part
of every driver, unless the user has another baseline.

## Main definitions

* `SystemGroup.descriptors` — the objects of the group
-/

namespace MibDrivers.SystemGroup

/-- The identifier of the group. -/
def oid : Oid := ⟨[1, 3, 6, 1, 2, 1, 1]⟩

/-- A scalar of the group, given its last arc. -/
def scalar (arc : UInt32) (name : String) (access : Access) (description : String) :
    Descriptor :=
  { name, kind := .scalar, oid := ⟨oid.arcs ++ [arc]⟩, access, description }

/-- The objects of the group. -/
def descriptors : List Descriptor := [
  { name := "system", kind := .branch, oid },
  scalar 1 "sysDescr" .readOnly <|
    "A textual description of the entity. This value should include the full name and version " ++
    "identification of the system's hardware type, software operating-system, and networking " ++
    "software.",
  scalar 2 "sysObjectID" .readOnly <|
    "The vendor's authoritative identification of the network management subsystem contained " ++
    "in the entity.",
  scalar 3 "sysUpTime" .readOnly <|
    "The time (in hundredths of a second) since the network management portion of the system " ++
    "was last re-initialized.",
  scalar 4 "sysContact" .readWrite <|
    "The textual identification of the contact person for this managed node, together with " ++
    "information on how to contact this person.",
  scalar 5 "sysName" .readWrite <|
    "An administratively-assigned name for this managed node. By convention, this is the " ++
    "node's fully-qualified domain name.",
  scalar 6 "sysLocation" .readWrite <|
    "The physical location of this node (e.g., 'telephone closet, 3rd floor').",
  scalar 7 "sysServices" .readOnly <|
    "A value which indicates the set of services that this entity may potentially offer."]

end MibDrivers.SystemGroup
