import MibDrivers.Binary64
import MibDrivers.Entries

/-!
# JSON values

## Main definitions

* `Json` — values; the members of an object keep their order
* `Json.Number` — integers of 64 bits and binary64 numbers
* `Json.member?` — the member of an object with a given name
-/

namespace MibDrivers

/-- A JSON number. A literal without fraction and exponent is an integer as long as its
value fits 64 bits; every other number is a binary64 number. -/
inductive Json.Number where
  | integer (value : Int)
  | real (negative : Bool) (magnitude : Magnitude)
  deriving DecidableEq, Repr

/-- A JSON value. -/
inductive Json where
  | null
  | bool (value : Bool)
  | number (value : Json.Number)
  | string (text : String)
  | array (items : List Json)
  | object (members : List (String × Json))
  deriving Repr, Inhabited

namespace Json

/-- The member of an object with the given name. -/
def member? (name : String) : Json → Option Json
  | .object members => members.lookup name
  | _ => none

/-- The text of a string. -/
def string? : Json → Option String
  | .string text => some text
  | _ => none

/-- The items of an array. -/
def items? : Json → Option (List Json)
  | .array items => some items
  | _ => none

end Json

end MibDrivers
