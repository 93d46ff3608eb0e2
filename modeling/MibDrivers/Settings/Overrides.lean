import MibDrivers.Binary64
import MibDrivers.Entries
import MibDrivers.Settings.Basic
import MibDrivers.Settings.Expansion
import MibDrivers.Text.Casing
import MibDrivers.Text.Split

/-!
# Overrides from the environment

A variable whose name begins with `MIBGEN__` names an option: two further underscores
separate the section from the key, and case does not matter. An index in brackets after the
key names one item of a list. The text of a variable is taken as a boolean or a number if it
reads as one.

An option for a text takes the canonical text of its value. An option for a list takes the
parts between commas of a text that is neither a boolean nor a number, or the canonical texts
of its items if each place up to the last one has an item. Anything else is ignored.

A variable that names a whole section or an item of it leaves none of the options of the
section. So it matters which variable is applied after which. The variables are kept without
an order until they are applied, and an environment lists them in the order in which this
happens.

## Main definitions

* `Overrides.Content` — what the text of a variable is taken as
* `Overrides.Content.ofText` — takes a text as a value
* `Overrides.Target` — what the name of a variable names
* `Overrides.Holding` — what variables make of an option
* `Settings.withOverrides` — settings under the variables of an environment
-/

namespace MibDrivers

namespace Overrides

/-- What the text of a variable is taken as. -/
inductive Content where
  | bool (value : Bool)
  | integer (value : Int)
  | notANumber
  | infinite (negative : Bool)
  | real (negative : Bool) (magnitude : Magnitude)
  | text (text : String)
  deriving DecidableEq, Repr

/-- A sign before a text, whether it is a minus sign, and what follows it. -/
def sign : List Char → Bool × List Char
  | '-' :: rest => (true, rest)
  | '+' :: rest => (false, rest)
  | rest => (false, rest)

/-- A whole number of 64 bits: digits after an optional sign. -/
def integer? (cs : List Char) : Option Int := do
  let (negative, rest) := sign cs
  let value : Int ← (Text.digits? rest).map Int.ofNat
  let value := if negative then -value else value
  if -Text.signBit ≤ value && value < Text.signBit then some value else none

/-- An exponent after its letter: digits after an optional sign. -/
def exponent? (cs : List Char) : Option Int := do
  let (negative, rest) := sign cs
  let value : Int ← (Text.digits? rest).map Int.ofNat
  return if negative then -value else value

/-- A decimal: digits with an optional point among, before or after them, and an optional
exponent. At least one digit comes before the exponent. -/
def decimal? (cs : List Char) : Option (Nat × Int) := do
  let isMark (c : Char) : Bool := c = 'e' || c = 'E'
  let mantissa := cs.takeWhile (!isMark ·)
  let exponent ← match cs.dropWhile (!isMark ·) with
    | [] => some 0
    | _ :: rest => exponent? rest
  let whole := mantissa.takeWhile (· ≠ '.')
  let fraction := (mantissa.dropWhile (· ≠ '.')).drop 1
  let digits ← Text.digits? (whole ++ fraction)
  return (digits, exponent - fraction.length)

/-- A number that is no whole number of 64 bits. -/
def real? (cs : List Char) : Option Content := do
  let (negative, rest) := sign cs
  let word := String.ofList (rest.map Char.toLower)
  if word = "inf" || word = "infinity" then return .infinite negative
  if word = "nan" then return .notANumber
  let (digits, exponent) ← decimal? rest
  match Magnitude.ofScientific digits exponent with
  | some magnitude => return .real negative magnitude
  | none => return .infinite negative

/-- Takes a text as a boolean or a number if it reads as one. -/
def Content.ofText (text : String) : Content :=
  let lowered := String.ofList (Text.lowercaseAll text.toList)
  if lowered = "true" then .bool true
  else if lowered = "false" then .bool false
  else match integer? text.toList with
    | some value => .integer value
    | none => (real? text.toList).getD (.text text)

/-- The canonical text of a value. A number has its shortest digits, where a tie goes to the
greater one, and never an exponent. -/
def Content.canonical : Content → String
  | .bool true => "true"
  | .bool false => "false"
  | .integer value =>
    let digits := String.ofList (Text.decimal value.natAbs)
    if value < 0 then "-" ++ digits else digits
  | .notANumber => "NaN"
  | .infinite negative => if negative then "-inf" else "inf"
  | .real negative magnitude =>
    let (value, exponent) := magnitude.shortest .toGreater
    let digits := String.ofList <|
      if magnitude.significand = 0 then ['0'] else Magnitude.positional value exponent
    if negative then "-" ++ digits else digits
  | .text verbatim => verbatim

/-- The parts of a text between commas; a boolean or a number has none. -/
def Content.parts? : Content → Option (List Content)
  | .text verbatim =>
    some ((Text.splitAt ',' verbatim.toList).map fun part => .text (String.ofList part))
  | _ => none

/-! ### Names of variables -/

/-- The beginning of the names of variables that are overrides, in lower case. -/
def nameStart : String := "mibgen__"

/-- A name with a point in place of each pair of underscores, which are found from the left. -/
def pointed : List Char → List Char
  | '_' :: '_' :: rest => '.' :: pointed rest
  | c :: rest => c :: pointed rest
  | [] => []

/-- A character of a section or a key. -/
def isNameChar (c : Char) : Bool :=
  Text.isAsciiAlphanumeric c || c = '_' || c = '-' || c = ' '

/-- A step from an option to what it holds: an item of a list, or a member with a name. -/
inductive Step where
  | item (index : Int)
  | member (name : List Char)
  deriving DecidableEq, Repr

/-- An index as written in brackets: digits after an optional minus sign, with blanks and tabs
around them, of a value that fits 64 bits. -/
def index? (cs : List Char) : Option Int := do
  let isSpace (c : Char) : Bool := c = ' ' || c = '\t'
  let bare := ((cs.dropWhile isSpace).reverse.dropWhile isSpace).reverse
  let (negative, digits) := match bare with
    | '-' :: rest => (true, rest)
    | rest => (false, rest)
  let value : Int ← (Text.digits? digits).map Int.ofNat
  let value := if negative then -value else value
  if -Text.signBit ≤ value && value < Text.signBit then some value else none

/-- The steps in what follows a section. -/
def steps? : List Char → Option (List Step)
  | [] => some []
  | '.' :: rest => do
    let name := rest.takeWhile isNameChar
    if name.isEmpty then none
    else
      let steps ← steps? (rest.dropWhile isNameChar)
      return .member name :: steps
  | '[' :: rest => do
    let index ← index? (rest.takeWhile (· ≠ ']'))
    if ']' ∈ rest then
      let steps ← steps? ((rest.dropWhile (· ≠ ']')).drop 1)
      return .item index :: steps
    else none
  | _ => none
termination_by cs => cs.length
decreasing_by
  all_goals simp only [List.length_cons, List.length_drop]
  · have := (List.dropWhile_suffix (l := rest) isNameChar).length_le
    omega
  · have := (List.dropWhile_suffix (l := rest) (· ≠ ']')).length_le
    omega

/-- What the name of a variable names: a section, and what there is in it. An option is a
member of its section. -/
structure Target where
  sectionName : String
  steps : List Step
  deriving DecidableEq, Repr

/-- What the name of a variable names, if it is an override. -/
def Target.ofName? (variableName : String) : Option Target := do
  let name ← Text.dropPrefix? nameStart.toList (Text.lowercaseAll variableName.toList)
  let path := pointed name
  let steps ← steps? (path.dropWhile isNameChar)
  return { sectionName := String.ofList (path.takeWhile isNameChar), steps }

/-! ### What options hold -/

/-- What variables make of an option: one value, the items at their places in a list, of which
some may be no single value, or something with members. -/
inductive Holding where
  | value (content : Content)
  | items (entries : Entries Nat (Option Content))
  | members
  deriving DecidableEq, Repr

/-- The items that are there when an item is put among them. -/
def Holding.itemsBelow : Option Holding → Entries Nat (Option Content)
  | some (.items entries) => entries
  | some (.value content) =>
    ((content.parts?.getD []).map some).zipIdx.map fun (part, index) => (index, part)
  | some .members | none => []

/-- What an option holds after a variable that names it or a part of what it holds. An index
below zero counts from the end, and there is nothing before the first item. -/
def Holding.put (held : Option Holding) (steps : List Step) (content : Content) :
    Option Holding :=
  match steps with
  | [] => some (.value content)
  | .item index :: steps =>
    let entries := itemsBelow held
    let place : Int := if index < 0 then entries.length + index else index
    let item := if steps.isEmpty then some content else none
    if place < 0 then held else some (.items (entries.put place.toNat item))
  | .member _ :: _ => some .members

/-- What an option holds after a variable that names something in its section. Another option
is left alone. The value of a variable that names the section or an item of it comes in place
of the options. -/
def Holding.putBelow (held : Option Holding) (key : String) (steps : List Step)
    (content : Content) : Option Holding :=
  match steps with
  | .member name :: steps => if String.ofList name = key then put held steps content else held
  | [] | .item _ :: _ => none

/-- What the variables of an environment make of an option, if one of them names it. They are
applied one after another. -/
def find? (environment : Environment) (sectionName key : String) : Option Holding :=
  environment.foldl (fun held (name, text) =>
    match Target.ofName? name with
    | some target =>
      if target.sectionName = sectionName then
        Holding.putBelow held key target.steps (Content.ofText text)
      else held
    | none => held) none

/-- The text of a single value. -/
def Holding.text? : Holding → Option String
  | .value content => some content.canonical
  | .items _ | .members => none

/-- The texts of a list, of which each place up to the last one has to hold a value. -/
def Holding.texts? : Holding → Option (List String)
  | .value content => content.parts?.map (·.map Content.canonical)
  | .items entries =>
    (List.range entries.length).mapM fun place =>
      (entries.lookup place).bind fun item => item.map Content.canonical
  | .members => none

/-- The text that overrides an option. -/
def text? (environment : Environment) (sectionName key : String) : Option String :=
  (find? environment sectionName key).bind Holding.text?

/-- The list that overrides an option. -/
def texts? (environment : Environment) (sectionName key : String) : Option (List String) :=
  (find? environment sectionName key).bind Holding.texts?

end Overrides

open Overrides in
/-- The settings under the variables of an environment. -/
def Settings.withOverrides (base : Settings) (environment : Environment) : Settings where
  mib.path := (text? environment "mib" "path").or base.mib.path
  mib.moduleName := (text? environment "mib" "module").or base.mib.moduleName
  dump.command := (text? environment "dump" "command").or base.dump.command
  dump.args := (texts? environment "dump" "args").getD base.dump.args
  generator.exclude := (texts? environment "generator" "exclude").getD base.generator.exclude
  generator.rootName := (text? environment "generator" "root_name").getD base.generator.rootName
  generator.runtimePath :=
    (text? environment "generator" "runtime_path").getD base.generator.runtimePath
  generator.baseline := (text? environment "generator" "baseline").or base.generator.baseline
  generator.output := (text? environment "generator" "output").or base.generator.output

end MibDrivers
