import MibDrivers.Json.Mismatch
import MibDrivers.Oid

/-!
# Records as objects and as arrays

A record is written as an object, whose members stand in any order, or as an array of its
fields in their order. The first value that does not fit, in the order of the document, is
the one that is reported; only then is a missing field.

## Main definitions

* `Json.checkMembers` — the first member that does not fit
* `Json.field`, `Json.optionalField` — a field of a record written as an object
* `Json.item`, `Json.optionalItem` — a field of a record written as an array
-/

namespace MibDrivers.Json

/-- Checks every member, in the order of the document. -/
def checkMembers (check : String → Json → Except Mismatch Unit)
    (members : List (String × Json)) : Except Mismatch Unit :=
  members.forM fun (name, value) => check name value

/-- A field that must be there. -/
def field {α : Type} (members : List (String × Json)) (name : String)
    (read : Json → Except Mismatch α) : Except Mismatch α :=
  match members.lookup name with
  | some value => read value
  | none => .error (.missingField name)

/-- A field that may be missing. -/
def optionalField {α : Type} (members : List (String × Json)) (name : String)
    (read : Json → Except Mismatch (Option α)) : Except Mismatch (Option α) :=
  match members.lookup name with
  | some value => read value
  | none => .ok none

/-- An item that must be there. -/
def item {α : Type} (items : List Json) (index : Nat) (record : String)
    (read : Json → Except Mismatch α) : Except Mismatch α :=
  match items[index]? with
  | some value => read value
  | none => .error (.wrongLength index record)

/-- An item that may be missing. -/
def optionalItem {α : Type} (items : List Json) (index : Nat)
    (read : Json → Except Mismatch (Option α)) : Except Mismatch (Option α) :=
  match items[index]? with
  | some value => read value
  | none => .ok none

/-- Refuses items beyond the fields of a record. -/
def checkLength (items : List Json) (fields : Nat) : Except Mismatch Unit :=
  if items.length ≤ fields then .ok ()
  else .error (.wrongLength items.length "fewer elements in array")

/-- A dotted object identifier. -/
def expectOid (value : Json) : Except Mismatch Oid := do
  (Oid.ofDotted (← expectString value)).mapError .refused

end MibDrivers.Json
