import MibDrivers.Error
import MibDrivers.Json.Compact

/-!
# Values of the wrong shape

A value that is read as something else, a record or one of several names, is refused with a
message that says what was found and what was expected.

## Main definitions

* `Json.Mismatch` — why a value is refused
* `Json.Mismatch.message` — the wording
* `Json.expectString`, `Json.expectName` — a string, and a name out of a given list
-/

namespace MibDrivers.Json

/-- Why a value cannot be read as what was expected. -/
inductive Mismatch where
  /-- A record lacks a field. -/
  | missingField (name : String)
  /-- A name is none of the expected ones. -/
  | unknownName (found : String) (expected : List String)
  /-- The value has another shape. -/
  | wrongShape (found : Json) (expected : String)
  /-- An object that stands for a name has not exactly one member. -/
  | notOneMember
  /-- An array that stands for a record has the wrong number of items. -/
  | wrongLength (length : Nat) (expected : String)
  /-- A string is refused for its content. -/
  | refused (cause : MibError)

/-- How a message shows the value that was found. -/
def shape : Json → String
  | .null => "null"
  | .bool value => "boolean `" ++ (if value then "true" else "false") ++ "`"
  | .number (.integer value) => "integer `" ++ String.ofList (Number.integer value).chars ++ "`"
  | .number value => "floating point `" ++ String.ofList value.chars ++ "`"
  | .string text => "string " ++ Text.quoted text
  | .array _ => "sequence"
  | .object _ => "map"

/-- The list of expected names in a message. -/
def alternatives : List String → String
  | [] => "there are no variants"
  | [name] => "expected `" ++ name ++ "`"
  | [first, second] => "expected `" ++ first ++ "` or `" ++ second ++ "`"
  | names =>
    "expected one of " ++ String.intercalate ", " (names.map fun name => "`" ++ name ++ "`")

/-- The wording of a mismatch. -/
def Mismatch.message : Mismatch → String
  | .missingField name => "missing field `" ++ name ++ "`"
  | .unknownName found expected => "unknown variant `" ++ found ++ "`, " ++ alternatives expected
  | .wrongShape found expected => "invalid type: " ++ shape found ++ ", expected " ++ expected
  | .notOneMember => "invalid value: map, expected map with a single key"
  | .wrongLength length expected =>
    "invalid length " ++ toString length ++ ", expected " ++ expected
  | .refused cause => cause.message

/-- The text of a string. -/
def expectString : Json → Except Mismatch String
  | .string text => .ok text
  | value => .error (.wrongShape value "a string")

/-- The text of a string, or nothing for null. -/
def expectOptionalString : Json → Except Mismatch (Option String)
  | .null => .ok none
  | value => (expectString value).map some

/-- The index of a name among the expected ones. The name is given as a string, or as an
object whose only member has that name and the value null. -/
def expectName {α : Type} (choices : List (String × α)) : Json → Except Mismatch α
  | .string name => choose name
  | .object [(name, content)] => do
    let choice ← choose name
    match content with
    | .null => return choice
    | _ => .error (.wrongShape content "unit")
  | .object _ => .error .notOneMember
  | value => .error (.wrongShape value "string or map")
where
  /-- The choice with the given name. -/
  choose (name : String) : Except Mismatch α :=
    match choices.lookup name with
    | some choice => .ok choice
    | none => .error (.unknownName name (choices.map Prod.fst))

end MibDrivers.Json
