/-!
# Blank characters, trimming and lines

The blank characters are those with the Unicode property `White_Space`. Trimming
removes them at both ends of a text. A line ends at a line feed; one carriage
return directly before the line feed belongs to the line's end, and a carriage
return anywhere else is ordinary content.

## Main definitions

* `Text.isBlank` — the blank characters
* `Text.trim`, `Text.trimEnd` — a text without the blanks at its ends
* `Text.lines` — the lines of a text
-/

namespace MibDrivers.Text

/-- A character is blank if it has the Unicode property `White_Space`. -/
def isBlank (c : Char) : Bool :=
  let n := c.toNat
  (9 ≤ n && n ≤ 13) || n == 0x20 || n == 0x85 || n == 0xA0 || n == 0x1680 ||
    (0x2000 ≤ n && n ≤ 0x200A) || n == 0x2028 || n == 0x2029 || n == 0x202F ||
    n == 0x205F || n == 0x3000

/-- The characters without the blanks at their end. -/
def dropBlanksRight (cs : List Char) : List Char :=
  (cs.reverse.dropWhile isBlank).reverse

/-- The characters without the blanks at both ends. -/
def trimChars (cs : List Char) : List Char :=
  dropBlanksRight (cs.dropWhile isBlank)

/-- The text without the blanks at both ends. -/
def trim (s : String) : String := String.ofList (trimChars s.toList)

/-- The text without the blanks at its end. -/
def trimEnd (s : String) : String := String.ofList (dropBlanksRight s.toList)

/-- The lines of the characters that remain, where `current` holds the characters
of the line read so far, last one first. -/
def linesFrom (current : List Char) : List Char → List (List Char)
  | [] => if current.isEmpty then [] else [current.reverse]
  | c :: rest =>
    if c = '\n' then
      match current with
      | '\r' :: before => before.reverse :: linesFrom [] rest
      | _ => current.reverse :: linesFrom [] rest
    else linesFrom (c :: current) rest

/-- The lines of a text. A line feed at the very end opens no further line. -/
def lines (cs : List Char) : List (List Char) := linesFrom [] cs

end MibDrivers.Text
