import MibDrivers.Text.Split

/-!
# Writing strings in TOML

A string is written in the first form that shows it without escapes, among a basic string,
a literal one, and the multi-line forms of both. If none does, it is escaped: over several
lines if it has a line feed, else on one. A tab never rules a form out, but the basic forms
write it as an escape.

## Main definitions

* `Toml.Form` — the four forms
* `Toml.form` — the form in which a string is written
* `Toml.stringChars` — a string as written
-/

namespace MibDrivers.Toml

/-- The forms of a written string. -/
inductive Form where
  | basic
  | literal
  | multilineBasic
  | multilineLiteral
  deriving DecidableEq, Repr

/-- The ASCII control characters. -/
def isControl (c : Char) : Bool := c.toNat < 0x20 || c.toNat = 0x7F

/-- A control character that no form shows as it is on one line. -/
def isHidden (c : Char) : Bool := isControl c && c ≠ '\t'

/-- A control character that no form shows as it is. -/
def isHiddenInLines (c : Char) : Bool := isHidden c && c ≠ '\n'

/-- The text has three times the character `mark` in a row. -/
def hasThree (mark : Char) : List Char → Bool
  | a :: b :: c :: rest => (a = mark && b = mark && c = mark) || hasThree mark (b :: c :: rest)
  | _ => false

/-- The form in which a string is written. -/
def form (cs : List Char) : Form :=
  if !cs.any isHidden && '\\' ∉ cs && '"' ∉ cs then .basic
  else if !cs.any isHidden && '\'' ∉ cs then .literal
  else if !cs.any isHiddenInLines && '\\' ∉ cs && !hasThree '"' cs then .multilineBasic
  else if !cs.any isHiddenInLines && !hasThree '\'' cs then .multilineLiteral
  else if '\n' ∈ cs then .multilineBasic
  else .basic

/-- A hexadecimal digit in upper case. -/
def hexDigit (n : Nat) : Char := (Nat.digitChar n).toUpper

/-- The escape of a control character. -/
def controlEscape (c : Char) : List Char :=
  if c = '\x08' then ['\\', 'b']
  else if c = '\t' then ['\\', 't']
  else if c = '\n' then ['\\', 'n']
  else if c = '\x0c' then ['\\', 'f']
  else if c = '\r' then ['\\', 'r']
  else ['\\', 'u', '0', '0', hexDigit (c.toNat / 16), hexDigit (c.toNat % 16)]

/-- The content of a basic string. Of quotes in a row, `room` more may stand before one has
to be escaped; a multi-line string has room for two and keeps line feeds. -/
def basicContent (multiline : Bool) (room : Nat) : List Char → List Char
  | [] => []
  | c :: rest =>
    let full := if multiline then 2 else 0
    if c = '"' then
      if room = 0 then '\\' :: '"' :: basicContent multiline full rest
      else '"' :: basicContent multiline (room - 1) rest
    else if c = '\\' then '\\' :: '\\' :: basicContent multiline full rest
    else if isControl c && !(multiline && c = '\n') then
      controlEscape c ++ basicContent multiline full rest
    else c :: basicContent multiline full rest

/-- A string between marks. A line feed follows the opening mark of a multi-line form if the
string has one itself. -/
def enclose (mark : List Char) (multiline : Bool) (cs content : List Char) : List Char :=
  mark ++ (if multiline && '\n' ∈ cs then ['\n'] else []) ++ content ++ mark

/-- A string as written. -/
def stringChars (text : String) : List Char :=
  let cs := text.toList
  match form cs with
  | .basic => enclose ['"'] false cs (basicContent false 0 cs)
  | .literal => enclose ['\''] false cs cs
  | .multilineBasic => enclose ['"', '"', '"'] true cs (basicContent true 2 cs)
  | .multilineLiteral => enclose ['\'', '\'', '\''] true cs cs

/-- A list of strings as written: on one line if it has at most one item, else with each
item on a line of its own. -/
def listChars : List String → List Char
  | [] => ['[', ']']
  | [item] => '[' :: (stringChars item ++ [']'])
  | items =>
    '[' :: '\n' :: ((items.flatMap fun item =>
      "    ".toList ++ stringChars item ++ [',', '\n']) ++ [']'])

end MibDrivers.Toml
