/-!
# Splitting and joining texts

## Main definitions

* `Text.splitAt` — the pieces of a text between occurrences of one character
* `Text.joinWith` — pieces with a separator between neighbours
* `Text.dropPrefix?` — what follows a given beginning
-/

namespace MibDrivers.Text

/-- The pieces of a text between occurrences of `separator`, empty ones included. There is
one piece more than there are separators. -/
def splitAt (separator : Char) : List Char → List (List Char)
  | [] => [[]]
  | c :: rest =>
    let pieces := splitAt separator rest
    if c = separator then [] :: pieces
    else (c :: pieces.headD []) :: pieces.tail

/-- The pieces one after another, with `separator` between neighbours. -/
def joinWith (separator : List Char) : List (List Char) → List Char
  | [] => []
  | [piece] => piece
  | piece :: rest => piece ++ separator ++ joinWith separator rest

/-- What follows `start` in a text that begins with it. -/
def dropPrefix? : (start text : List Char) → Option (List Char)
  | [], text => some text
  | _ :: _, [] => none
  | s :: start, c :: text => if s = c then dropPrefix? start text else none

end MibDrivers.Text
