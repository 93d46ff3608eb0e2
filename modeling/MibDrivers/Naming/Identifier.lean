import MibDrivers.Text.Alphanumeric
import MibDrivers.Text.Casing

/-!
# Identifiers of the generated source

The generated source is Rust. A type is named after its branch with the first character in
upper case, a method after its object with `_` before each upper case character, which is
lowered. What no identifier may hold becomes `_`, one for one. A name that is a keyword is
escaped: a type by a trailing `_`, a method by the prefix `r#`, or by a trailing `_` where
the prefix is not allowed or the constructor has the name.

## Main definitions

* `Naming.className` — the name of the type for a branch
* `Naming.methodName` — the name of the method for an object
-/

namespace MibDrivers.Naming

/-- The keywords that may be used as an identifier with the prefix `r#`. -/
def keywords : List String := [
  "as", "async", "await", "box", "break", "const", "continue", "do", "dyn", "else", "enum",
  "extern", "false", "final", "fn", "for", "gen", "if", "impl", "in", "let", "loop", "macro",
  "match", "mod", "move", "mut", "override", "priv", "pub", "ref", "return", "static", "struct",
  "trait", "true", "try", "type", "typeof", "unsafe", "unsized", "use", "virtual", "where",
  "while", "yield"]

/-- The keywords that name a place in a path, which no prefix turns into an identifier. -/
def pathKeywords : List String := ["self", "Self", "super", "crate"]

/-- The method that every generated type has. -/
def constructor : String := "new"

/-- A character of an identifier, or `_` in its place. -/
def identifierChar (c : Char) : Char :=
  if Text.isAsciiAlphanumeric c || c = '_' then c else '_'

/-- The characters of a name with the first one in upper case. -/
def capitalize : List Char → List Char
  | [] => []
  | c :: rest => Text.uppercase c ++ rest

/-- The characters of a name with each upper case one lowered, after an `_`. -/
def separateWords (cs : List Char) : List Char :=
  cs.flatMap fun c => if Text.isUppercase c then '_' :: Text.lowercase c else [c]

/-- The name of the type for a branch. -/
def className (name : String) : String :=
  let candidate := String.ofList ((capitalize name.toList).map identifierChar)
  if candidate ∈ keywords || candidate ∈ pathKeywords then candidate ++ "_" else candidate

/-- The name of the method for an object. -/
def methodName (name : String) : String :=
  let candidate := String.ofList ((separateWords name.toList).map identifierChar)
  if candidate ∈ keywords then "r#" ++ candidate
  else if candidate ∈ pathKeywords || candidate = constructor then candidate ++ "_"
  else candidate

end MibDrivers.Naming
