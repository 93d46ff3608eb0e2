import MibDrivers.Descriptor
import MibDrivers.Json.Fields

/-!
# Descriptors as JSON

A descriptor is written as an object with its five fields. It is read from an object or an
array; all five fields must be there.

## Main definitions

* `Descriptor.toJson` — writes a descriptor
* `Descriptor.ofJson` — reads a descriptor
-/

namespace MibDrivers

/-- Reads a kind from its name. -/
def DescriptorKind.ofJson : Json → Except Json.Mismatch DescriptorKind :=
  Json.expectName [("branch", .branch), ("scalar", .scalar)]

/-- Reads an access mode. -/
def Access.ofJson (value : Json) : Except Json.Mismatch Access :=
  (Json.expectString value).map Access.ofText

namespace Descriptor

/-- A descriptor as an object. -/
def toJson (d : Descriptor) : Json :=
  .object [
    ("name", .string d.name),
    ("kind", .string d.kind.text),
    ("oid", .string d.oid.dotted),
    ("access", .string d.access.text),
    ("description", .string d.description)]

/-- Checks one member of an object that stands for a descriptor. Members that are no field
are ignored. -/
def checkMember (name : String) (value : Json) : Except Json.Mismatch Unit :=
  match name with
  | "name" | "description" => do let _ ← Json.expectString value
  | "kind" => do let _ ← DescriptorKind.ofJson value
  | "oid" => do let _ ← Json.expectOid value
  | "access" => do let _ ← Access.ofJson value
  | _ => .ok ()

/-- How a message names an array that stands for a descriptor. -/
def recordText : String := "struct ObjectDescriptor with 5 elements"

/-- Reads a descriptor. -/
def ofJson : Json → Except Json.Mismatch Descriptor
  | .object members => do
    Json.checkMembers checkMember members
    let name ← Json.field members "name" Json.expectString
    let kind ← Json.field members "kind" DescriptorKind.ofJson
    let oid ← Json.field members "oid" Json.expectOid
    let access ← Json.field members "access" Access.ofJson
    let description ← Json.field members "description" Json.expectString
    return { name, kind, oid, access, description }
  | .array items => do
    let name ← Json.item items 0 recordText Json.expectString
    let kind ← Json.item items 1 recordText DescriptorKind.ofJson
    let oid ← Json.item items 2 recordText Json.expectOid
    let access ← Json.item items 3 recordText Access.ofJson
    let description ← Json.item items 4 recordText Json.expectString
    Json.checkLength items 5
    return { name, kind, oid, access, description }
  | value => .error (.wrongShape value "struct ObjectDescriptor")

end Descriptor

end MibDrivers
