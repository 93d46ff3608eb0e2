import MibDrivers.Json.Token

/-!
# JSON documents as written

A document is what a text says before it is taken as a value: an object may repeat a name,
and a string or a number may denote nothing. Reading a document is a walk over its tokens
with a stack of the arrays and objects that are still open, so nesting has no limit here.

A document is taken as a value by `Document.value?`, which asks that every string and
number denotes something, that nesting stays within a limit, and that a repeated name takes
its last value at the place of its first.

## Main definitions

* `Json.Document` — documents as written
* `Json.Document.ofText?` — the document that a text holds
* `Json.Document.value?` — the value of a document
* `Json.ofText?` — the value that a text holds
-/

namespace MibDrivers.Json

/-- A document as written. -/
inductive Document where
  | null
  | bool (value : Bool)
  | number (value : Option Number)
  | string (text : Option String)
  | array (items : List Document)
  | object (members : List (Option String × Document))
  deriving Inhabited

namespace Document

/-- An array or object that is still open, with what it holds so far, last first. An object
also has the name of the member that comes next. -/
inductive Frame where
  | array (items : List Document)
  | object (members : List (Option String × Document)) (name : Option String)

/-! ### From tokens to documents -/

mutual

/-- Reads on where a value has to come. -/
def readValue (stack : List Frame) : List Token → Option Document
  | .null :: rest => readAfter .null stack rest
  | .bool value :: rest => readAfter (.bool value) stack rest
  | .number value :: rest => readAfter (.number value) stack rest
  | .string text :: rest => readAfter (.string text) stack rest
  | .openBracket :: .closeBracket :: rest => readAfter (.array []) stack rest
  | .openBracket :: rest => readValue (.array [] :: stack) rest
  | .openBrace :: .closeBrace :: rest => readAfter (.object []) stack rest
  | .openBrace :: rest => readName [] stack rest
  | _ => none

/-- Reads on where the name of a member has to come. -/
def readName (members : List (Option String × Document)) (stack : List Frame) :
    List Token → Option Document
  | .string name :: .colon :: rest => readValue (.object members name :: stack) rest
  | _ => none

/-- Reads on after a value that belongs to the innermost open array or object. -/
def readAfter (value : Document) : List Frame → List Token → Option Document
  | [], [] => some value
  | .array items :: stack, .comma :: rest => readValue (.array (value :: items) :: stack) rest
  | .array items :: stack, .closeBracket :: rest =>
    readAfter (.array (value :: items).reverse) stack rest
  | .object members name :: stack, .comma :: rest =>
    readName ((name, value) :: members) stack rest
  | .object members name :: stack, .closeBrace :: rest =>
    readAfter (.object ((name, value) :: members).reverse) stack rest
  | _, _ => none

end

/-- The document that a text holds. -/
def ofText? (text : String) : Option Document :=
  (Token.ofChars? text.toList).bind (readValue [])

/-! ### From documents to values -/

mutual

/-- The value of a document in which arrays and objects nest at most `depth` deep. -/
def value? (depth : Nat) : Document → Option Json
  | .null => some .null
  | .bool value => some (.bool value)
  | .number value => value.map .number
  | .string text => text.map .string
  | .array items =>
    if depth = 0 then none else (values? (depth - 1) items).map .array
  | .object members =>
    if depth = 0 then none
    else (members? (depth - 1) members).map fun members => .object (Entries.ofList members)

/-- The values of the items of an array. -/
def values? (depth : Nat) : List Document → Option (List Json)
  | [] => some []
  | item :: rest => do
    let item ← value? depth item
    let rest ← values? depth rest
    return item :: rest

/-- The values of the members of an object, as written. -/
def members? (depth : Nat) : List (Option String × Document) → Option (List (String × Json))
  | [] => some []
  | (name, member) :: rest => do
    let name ← name
    let member ← value? depth member
    let rest ← members? depth rest
    return (name, member) :: rest

end

/-- The greatest number of arrays and objects that may be open at once. -/
def maxDepth : Nat := 127

end Document

/-- The value that a text holds. -/
def ofText? (text : String) : Option Json :=
  (Document.ofText? text).bind (Document.value? Document.maxDepth)

end MibDrivers.Json
