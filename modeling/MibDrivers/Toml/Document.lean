import MibDrivers.Toml.Scalar

/-!
# Reading TOML documents

A document is a sequence of statements: headers, which open a table or an element of an
array of tables, and assignments of values to keys. Arrays and inline tables nest to a
limited depth.

## Main definitions

* `Toml.value?` — a value at the beginning of a text
* `Toml.statements?` — the statements of a text
* `Toml.ofText?` — the entries of the table that a document describes
-/

namespace MibDrivers.Toml

/-- The greatest number of arrays and inline tables in one another, and of parts of a
key. -/
def maxDepth : Nat := 79

/-- What follows blanks, line ends and comments, from within a comment or not. -/
def dropFiller (inComment : Bool) : List Char → List Char
  | [] => []
  | c :: rest =>
    if c = '\n' then dropFiller false rest
    else if c = '\r' && rest.head? = some '\n' then dropFiller inComment rest
    else if inComment then if isPlain c then dropFiller true rest else c :: rest
    else if isSpace c then dropFiller false rest
    else if c = '#' then dropFiller true rest
    else c :: rest

/-- The parts of a dotted key and what follows it, where the key has at most `room`
parts. -/
def dottedKey? : (room : Nat) → List Char → Option (List String × List Char)
  | 0, _ => none
  | room + 1, cs => do
    let (key, rest) ← key? (dropSpace cs)
    match dropSpace rest with
    | '.' :: rest =>
      let (keys, rest) ← dottedKey? room rest
      return (key :: keys, rest)
    | rest => return ([key], rest)

/-- A dotted key as the path to a table and the key in it. -/
def splitKey? (keys : List String) : Option (List String × String) :=
  keys.getLast?.map fun key => (keys.dropLast, key)

/-- An assignment: the path to a table, the key in it, and the value. -/
abbrev Assignment := List String × String × Value

mutual

/-- A value at the beginning of a text and what follows it. Each step looks at one value,
item or assignment, and `fuel` bounds the steps within one another. -/
def valueWithin? (fuel depth : Nat) (cs : List Char) : Option (Value × List Char) :=
  match fuel with
  | 0 => none
  | fuel + 1 =>
    match cs with
    | '[' :: rest =>
      if depth = 0 then none
      else (itemsWithin? fuel (depth - 1) rest).map fun (items, rest) => (.list items, rest)
    | '\x7b' :: rest =>
      if depth = 0 then none
      else
        match dropSpace rest with
        | '\x7d' :: rest => some (.table [], rest)
        | rest => do
          let (assignments, rest) ← assignmentsWithin? fuel (depth - 1) rest
          let table ← ({} : Table Node).assignAll? assignments
          return (Node.tableValue table, rest)
    | _ => scalar? cs

/-- The items of an array after its opening bracket or a comma. -/
def itemsWithin? (fuel depth : Nat) (cs : List Char) : Option (List Value × List Char) :=
  match fuel with
  | 0 => none
  | fuel + 1 =>
    match dropFiller false cs with
    | ']' :: rest => some ([], rest)
    | start => do
      let (item, rest) ← valueWithin? fuel depth start
      match dropFiller false rest with
      | ',' :: rest =>
        let (items, rest) ← itemsWithin? fuel depth rest
        return (item :: items, rest)
      | ']' :: rest => return ([item], rest)
      | _ => none

/-- The assignments of an inline table after its opening brace or a comma. -/
def assignmentsWithin? (fuel depth : Nat) (cs : List Char) :
    Option (List Assignment × List Char) :=
  match fuel with
  | 0 => none
  | fuel + 1 => do
    let (assignment, rest) ← assignmentWithin? fuel depth cs
    match dropSpace rest with
    | ',' :: rest =>
      let (assignments, rest) ← assignmentsWithin? fuel depth rest
      return (assignment :: assignments, rest)
    | '\x7d' :: rest => return ([assignment], rest)
    | _ => none

/-- An assignment at the beginning of a text. -/
def assignmentWithin? (fuel depth : Nat) (cs : List Char) : Option (Assignment × List Char) :=
  match fuel with
  | 0 => none
  | fuel + 1 => do
    let (keys, rest) ← dottedKey? maxDepth cs
    let (path, key) ← splitKey? keys
    let rest ← after? '=' rest
    let (value, rest) ← valueWithin? fuel depth (dropSpace rest)
    return ((path, key, value), rest)

end

/-- More steps than any value of a text takes within one another: two for each character,
and a few for an empty text. -/
def enoughFuel (cs : List Char) : Nat := 2 * cs.length + 4

/-- A value at the beginning of a text and what follows it. -/
def value? (cs : List Char) : Option (Value × List Char) :=
  valueWithin? (enoughFuel cs) maxDepth cs

/-- An assignment at the beginning of a text and what follows it. -/
def assignment? (cs : List Char) : Option (Assignment × List Char) :=
  assignmentWithin? (enoughFuel cs) maxDepth cs

/-! ### Statements -/

/-- A statement of a document. -/
inductive Statement where
  /-- Opens the table at a path. -/
  | table (path : List String) (key : String)
  /-- Opens a further element of the array of tables at a path. -/
  | element (path : List String) (key : String)
  | assignment (assignment : Assignment)

/-- A header after its first bracket. -/
def header? (cs : List Char) : Option (Statement × List Char) :=
  match cs with
  | '[' :: rest => do
    let (keys, rest) ← dottedKey? maxDepth rest
    let (path, key) ← splitKey? keys
    let rest ← Text.dropPrefix? [']', ']'] rest
    return (.element path key, rest)
  | _ => do
    let (keys, rest) ← dottedKey? maxDepth cs
    let (path, key) ← splitKey? keys
    let rest ← after? ']' rest
    return (.table path key, rest)

/-- What follows the end of a line, before which blanks and a comment may stand. -/
def lineEnd? (cs : List Char) : Option (List Char) :=
  let rest := match dropSpace cs with
    | '#' :: comment => comment.dropWhile isPlain
    | rest => rest
  if rest.isEmpty then some [] else newline? rest

/-- The statement of a line that is neither blank nor a comment, and what follows the
line. -/
def statement? (cs : List Char) : Option (Statement × List Char) := do
  let (statement, rest) ← match cs with
    | '[' :: rest => header? rest
    | _ => (assignment? cs).map fun (assignment, rest) => (.assignment assignment, rest)
  let rest ← lineEnd? rest
  return (statement, rest)

/-- The statements of a text. What follows a line is shorter than the text that begins with
the line. -/
def statements? (cs : List Char) : Option (List Statement) :=
  match cs with
  | [] => some []
  | c :: rest =>
    if isSpace c then statements? rest
    else
      let line :=
        if c = '\n' || c = '\r' || c = '#' then
          (lineEnd? (c :: rest)).map fun rest => ([], rest)
        else (statement? (c :: rest)).map fun (statement, rest) => ([statement], rest)
      match line with
      | none => none
      | some (found, after) =>
        if _ : after.length < (c :: rest).length then (statements? after).map (found ++ ·)
        else none
termination_by cs.length
decreasing_by
  · exact Nat.lt_succ_self rest.length
  · assumption

/-! ### Documents -/

/-- The assignments at the beginning of a list of statements, and the statements from the
first header on. -/
def leadingAssignments : List Statement → List Assignment × List Statement
  | .assignment assignment :: rest =>
    let (assignments, rest) := leadingAssignments rest
    (assignment :: assignments, rest)
  | rest => ([], rest)

/-- The statements from the first header on are no more than all. -/
theorem length_leadingAssignments_le (statements : List Statement) :
    (leadingAssignments statements).2.length ≤ statements.length := by
  fun_induction leadingAssignments statements with
  | case1 assignment rest assignments after heq ih =>
    simp only [heq] at ih
    simp only [List.length_cons]
    omega
  | case2 => exact Nat.le_refl _

/-- The table with the tables that headers open, each with the assignments that follow its
header. -/
def addSections? (table : Table Node) (statements : List Statement) : Option (Table Node) :=
  match statements with
  | [] => some table
  | .assignment _ :: _ => none
  | .table path key :: rest => do
    let table ← table.define? path key (leadingAssignments rest).1
    addSections? table (leadingAssignments rest).2
  | .element path key :: rest => do
    let table ← table.extend? path key (leadingAssignments rest).1
    addSections? table (leadingAssignments rest).2
termination_by statements.length
decreasing_by
  all_goals
    have := length_leadingAssignments_le rest
    simp only [List.length_cons]
    omega

/-- The table that statements describe. -/
def tableOf? (statements : List Statement) : Option (Table Node) := do
  let (assignments, sections) := leadingAssignments statements
  let table ← ({} : Table Node).assignAll? assignments
  addSections? table sections

/-- The characters of a document without the byte order mark that it may begin with. -/
def dropByteOrderMark (cs : List Char) : List Char :=
  (Text.dropPrefix? [Char.ofNat 0xFEFF] cs).getD cs

/-- The entries of the table that a document describes. -/
def ofText? (text : String) : Option (List (String × Value)) := do
  let statements ← statements? (dropByteOrderMark text.toList)
  let table ← tableOf? statements
  return Node.entryValues table.entries

end MibDrivers.Toml
