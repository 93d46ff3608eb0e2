import MibDrivers.Json.Basic

/-!
# The compact JSON text

A value is written without spaces. In a string a quote, a backslash and the control
characters below `U+0020` are escaped, five of the latter by a letter; every other character
stands for itself. An integer has its digits, and every other number has a decimal point or an
exponent.

## Main definitions

* `Json.stringChars` — a string as written
* `Json.compactChars`, `Json.compact` — a value as written
-/

namespace MibDrivers.Json

/-- One character of a written string. -/
def stringChar (c : Char) : List Char :=
  if c = '"' then ['\\', '"']
  else if c = '\\' then ['\\', '\\']
  else if c = '\n' then ['\\', 'n']
  else if c = '\r' then ['\\', 'r']
  else if c = '\t' then ['\\', 't']
  else if c = '\x08' then ['\\', 'b']
  else if c = '\x0c' then ['\\', 'f']
  else if c.toNat < 0x20 then
    ['\\', 'u', '0', '0', Nat.digitChar (c.toNat / 16), Nat.digitChar (c.toNat % 16)]
  else [c]

/-- A string as written, with its quotes. -/
def stringChars (text : String) : List Char :=
  '"' :: (text.toList.flatMap stringChar ++ ['"'])

/-- A binary64 magnitude as written: the shortest digits, where a tie goes to the even one. From
`10 ^ -5` up to below `10 ^ 16` they stand without exponent and with a decimal point, beyond that
with an exponent. -/
def magnitudeChars (magnitude : Magnitude) : List Char :=
  let (value, exponent) := magnitude.shortest .toEven
  let point : Int := (Text.decimal value).length + exponent
  if magnitude.significand = 0 then ['0', '.', '0']
  else if point ≤ -5 || 16 < point then Magnitude.scientific value exponent
  else if exponent < 0 then Magnitude.positional value exponent
  else Magnitude.positional value exponent ++ ['.', '0']

/-- A number as written. -/
def Number.chars : Number → List Char
  | .integer value =>
    if value < 0 then '-' :: Text.decimal value.natAbs else Text.decimal value.natAbs
  | .real negative magnitude =>
    if negative then '-' :: magnitudeChars magnitude else magnitudeChars magnitude

mutual

/-- A value as written. -/
def compactChars : Json → List Char
  | .null => "null".toList
  | .bool true => "true".toList
  | .bool false => "false".toList
  | .number value => value.chars
  | .string text => stringChars text
  | .array items => '[' :: (itemsChars items ++ [']'])
  | .object members => '\x7b' :: (membersChars members ++ ['\x7d'])

/-- The items of an array, with commas between neighbours. -/
def itemsChars : List Json → List Char
  | [] => []
  | [item] => compactChars item
  | item :: rest => compactChars item ++ ',' :: itemsChars rest

/-- The members of an object, with commas between neighbours. -/
def membersChars : List (String × Json) → List Char
  | [] => []
  | [(name, member)] => stringChars name ++ ':' :: compactChars member
  | (name, member) :: rest =>
    stringChars name ++ ':' :: (compactChars member ++ ',' :: membersChars rest)

end

/-- The compact text of a value. -/
def compact (value : Json) : String := String.ofList value.compactChars

end MibDrivers.Json
