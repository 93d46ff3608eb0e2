import MibDrivers.Binary64
import MibDrivers.Text.Split
import MibDrivers.Toml.Quoting
import MibDrivers.Toml.Value

/-!
# Reading single TOML values

Every function here looks at the beginning of a text. It returns what it found there and
what follows, or nothing if the text does not begin with it.

## Main definitions

* `Toml.string?` — a string in any of the four forms
* `Toml.number?`, `Toml.date?` — numbers and dates, which are only checked
* `Toml.scalar?` — any value that holds no other values
* `Toml.key?` — a simple key
-/

namespace MibDrivers.Toml

/-- A blank within a line. -/
def isSpace (c : Char) : Bool := c = ' ' || c = '\t'

/-- What follows the blanks of a line. -/
def dropSpace (cs : List Char) : List Char := cs.dropWhile isSpace

/-! ### Strings -/

/-- The value of hexadecimal digits. -/
def hexValue? (cs : List Char) : Option Nat :=
  cs.foldlM (fun value c =>
    if Text.isDigit c then some (16 * value + (c.toNat - '0'.toNat))
    else if 'a' ≤ c && c ≤ 'f' then some (16 * value + (c.toNat - 'a'.toNat + 10))
    else if 'A' ≤ c && c ≤ 'F' then some (16 * value + (c.toNat - 'A'.toNat + 10))
    else none) 0

/-- The character with the code point that hexadecimal digits give. -/
def codePoint? (digits : List Char) (count : Nat) : Option Char :=
  if digits.length = count then
    (hexValue? digits).bind fun n => if n.isValidChar then some (Char.ofNat n) else none
  else none

/-- What follows a backslash: the character that it stands for, and the length of the
escape after the backslash. -/
def escape? : List Char → Option (Char × Nat)
  | 'b' :: _ => some ('\x08', 1)
  | 't' :: _ => some ('\t', 1)
  | 'n' :: _ => some ('\n', 1)
  | 'f' :: _ => some ('\x0c', 1)
  | 'r' :: _ => some ('\r', 1)
  | '"' :: _ => some ('"', 1)
  | '\\' :: _ => some ('\\', 1)
  | 'u' :: rest => (codePoint? (rest.take 4) 4).map (·, 5)
  | 'U' :: rest => (codePoint? (rest.take 8) 8).map (·, 9)
  | _ => none

/-- A character that may stand in a string as it is. -/
def isPlain (c : Char) : Bool := !isControl c || c = '\t'

/-- The content of a basic string after its opening quote, of which the first `skip`
characters are already taken. -/
def basicBody? (skip : Nat) : List Char → Option (List Char × List Char)
  | [] => none
  | c :: rest =>
    match skip with
    | skip + 1 => basicBody? skip rest
    | 0 =>
      if c = '"' then some ([], rest)
      else if c = '\\' then do
        let (escaped, length) ← escape? rest
        let (content, rest) ← basicBody? length rest
        return (escaped :: content, rest)
      else if isPlain c then do
        let (content, rest) ← basicBody? 0 rest
        return (c :: content, rest)
      else none

/-- The content of a literal string after its opening quote. -/
def literalBody? : List Char → Option (List Char × List Char)
  | [] => none
  | c :: rest =>
    if c = '\'' then some ([], rest)
    else if isPlain c then do
      let (content, rest) ← literalBody? rest
      return (c :: content, rest)
    else none

/-- The end of a multi-line string: three marks, before which up to two more belong to the
content. -/
def closing? (mark : Char) (cs : List Char) : Option (List Char × List Char) :=
  let marks := (cs.take 5).takeWhile (· = mark)
  if 3 ≤ marks.length then some (marks.drop 3, cs.drop marks.length) else none

/-- What follows the line end at the beginning of a text, if there is one. -/
def newline? : List Char → Option (List Char)
  | '\n' :: rest => some rest
  | '\r' :: '\n' :: rest => some rest
  | _ => none

/-- A line ends after blanks. -/
def endsLine (cs : List Char) : Bool := (newline? (dropSpace cs)).isSome

/-- The content of a multi-line basic string, of which the first `skip` characters are
already taken. In a `gap`, after a backslash at the end of a line, blanks and line ends are
passed over. -/
def multilineBasicBody? (skip : Nat) (gap : Bool) :
    List Char → Option (List Char × List Char)
  | [] => none
  | c :: rest =>
    match skip with
    | skip + 1 => multilineBasicBody? skip gap rest
    | 0 =>
      if c = '\r' && rest.head? = some '\n' then multilineBasicBody? 0 gap rest
      else if gap && (isSpace c || c = '\n') then multilineBasicBody? 0 true rest
      else match closing? '"' (c :: rest) with
        | some closed => some closed
        | none =>
          if c = '\\' && endsLine rest then multilineBasicBody? 0 true rest
          else if c = '\\' then do
            let (escaped, length) ← escape? rest
            let (content, rest) ← multilineBasicBody? length false rest
            return (escaped :: content, rest)
          else if isPlain c || c = '\n' then do
            let (content, rest) ← multilineBasicBody? 0 false rest
            return (c :: content, rest)
          else none

/-- The content of a multi-line literal string. -/
def multilineLiteralBody? : List Char → Option (List Char × List Char)
  | [] => none
  | c :: rest =>
    if c = '\r' && rest.head? = some '\n' then multilineLiteralBody? rest
    else match closing? '\'' (c :: rest) with
      | some closed => some closed
      | none =>
        if isPlain c || c = '\n' then do
          let (content, rest) ← multilineLiteralBody? rest
          return (c :: content, rest)
        else none

/-- What follows the line end that may stand after the opening mark of a multi-line
string. -/
def dropNewline (cs : List Char) : List Char := (newline? cs).getD cs

/-- A string in any form. -/
def string? : List Char → Option (List Char × List Char)
  | '"' :: '"' :: '"' :: rest => multilineBasicBody? 0 false (dropNewline rest)
  | '\'' :: '\'' :: '\'' :: rest => multilineLiteralBody? (dropNewline rest)
  | '"' :: rest => basicBody? 0 rest
  | '\'' :: rest => literalBody? rest
  | _ => none

/-! ### Numbers -/

/-- What follows a sign, if there is one, and whether that is a minus sign. -/
def sign : List Char → Bool × List Char
  | '-' :: rest => (true, rest)
  | '+' :: rest => (false, rest)
  | rest => (false, rest)

/-- Digits, between which single underscores may stand, and what follows them. At least one
digit is there, and none of the underscores comes first or last. -/
def digitRun? (isDigit : Char → Bool) (cs : List Char) : Option (List Char × List Char) :=
  let inRun (c : Char) : Bool := isDigit c || c = '_'
  let groups := Text.splitAt '_' (cs.takeWhile inRun)
  if groups.all (!·.isEmpty) then some (groups.flatten, cs.dropWhile inRun) else none

/-- A whole number in decimal: a zero, or digits that do not begin with one. -/
def whole? : List Char → Option (List Char × List Char)
  | '0' :: rest => some (['0'], rest)
  | rest => digitRun? Text.isDigit rest

/-- The value of digits in a base. -/
def valueIn (base : Nat) (digits : List Char) : Nat :=
  digits.foldl (fun value c => base * value + ((hexValue? [c]).getD 0)) 0

/-- A whole number in another base, after the characters that announce the base. -/
def based? (base : Nat) (isDigit : Char → Bool) (cs : List Char) : Option (List Char) := do
  let (digits, rest) ← digitRun? isDigit cs
  if valueIn base digits < Text.signBit then some rest else none

/-- A whole number of 64 bits. -/
def integer? : List Char → Option (List Char)
  | '0' :: 'x' :: rest => based? 16 (fun c => (hexValue? [c]).isSome) rest
  | '0' :: 'o' :: rest => based? 8 (fun c => '0' ≤ c && c ≤ '7') rest
  | '0' :: 'b' :: rest => based? 2 (fun c => c = '0' || c = '1') rest
  | cs => do
    let (negative, rest) := sign cs
    let (digits, rest) ← whole? rest
    if Text.ofDecimal digits < Text.signBit + (if negative then 1 else 0) then some rest else none

/-- The exponent of a number, and what follows it. -/
def exponent? : List Char → Option (Int × List Char)
  | c :: rest =>
    if c = 'e' || c = 'E' then do
      let (negative, rest) := sign rest
      let (digits, rest) ← digitRun? Text.isDigit rest
      let value : Int := Text.ofDecimal digits
      return (if negative then -value else value, rest)
    else none
  | [] => none

/-- A number with a fraction or an exponent. It must not be above the greatest binary64
number. -/
def float? (cs : List Char) : Option (List Char) := do
  let (negative, rest) := sign cs
  if let some rest := Text.dropPrefix? ['i', 'n', 'f'] rest then return rest
  if let some rest := Text.dropPrefix? ['n', 'a', 'n'] rest then return rest
  let (digits, rest) ← whole? rest
  let (fraction, rest) ← match rest with
    | '.' :: rest => digitRun? Text.isDigit rest
    | _ => some ([], rest)
  let (exponent, rest) ← match exponent? rest with
    | some (exponent, rest) => some (some exponent, rest)
    | none => some (none, rest)
  if fraction.isEmpty && exponent.isNone then none
  let value := Magnitude.ofScientific (Text.ofDecimal (digits ++ fraction))
    (exponent.getD 0 - fraction.length)
  if negative || value.isSome then some rest else none

/-- A number. -/
def number? (cs : List Char) : Option (List Char) := (float? cs).or (integer? cs)

/-! ### Dates -/

/-- A number of exactly `count` digits. -/
def digits? (count : Nat) (cs : List Char) : Option (Nat × List Char) :=
  (Text.digits? (cs.take count)).bind fun value =>
    if count ≤ cs.length then some (value, cs.drop count) else none

/-- What follows the given character. -/
def after? (c : Char) (cs : List Char) : Option (List Char) := Text.dropPrefix? [c] cs

/-- The number of days of a month. -/
def daysOf (year month : Nat) : Nat :=
  if month = 2 then
    if year % 4 = 0 && (year % 100 ≠ 0 || year % 400 = 0) then 29 else 28
  else if month ∈ [4, 6, 9, 11] then 30
  else 31

/-- A day of the calendar. -/
def day? (cs : List Char) : Option (List Char) := do
  let (year, rest) ← digits? 4 cs
  let (month, rest) ← digits? 2 (← after? '-' rest)
  let (day, rest) ← digits? 2 (← after? '-' rest)
  if 1 ≤ month && month ≤ 12 && 1 ≤ day && day ≤ daysOf year month then some rest else none

/-- A time of day with seconds, and a fraction of them if there is one. -/
def time? (cs : List Char) : Option (List Char) := do
  let (hour, rest) ← digits? 2 cs
  let (minute, rest) ← digits? 2 (← after? ':' rest)
  let (second, rest) ← digits? 2 (← after? ':' rest)
  if 23 < hour || 59 < minute || 60 < second then none
  match rest with
  | '.' :: c :: rest => if Text.isDigit c then some (rest.dropWhile Text.isDigit) else none
  | '.' :: [] => none
  | _ => some rest

/-- The offset of a time from universal time. -/
def offset? : List Char → Option (List Char)
  | 'Z' :: rest => some rest
  | 'z' :: rest => some rest
  | c :: rest => do
    if c ≠ '+' && c ≠ '-' then none
    let (hour, rest) ← digits? 2 rest
    let (minute, rest) ← digits? 2 (← after? ':' rest)
    if 23 < hour || 59 < minute then none else some rest
  | [] => none

/-- A day, a time of day, or a day with a time and perhaps its offset. -/
def date? (cs : List Char) : Option (List Char) :=
  match day? cs with
  | none => time? cs
  | some rest =>
    match rest with
    | c :: after =>
      if c = 'T' || c = 't' || c = ' ' then
        match time? after with
        | none => some rest
        | some rest => (offset? rest).or (some rest)
      else some rest
    | [] => some []

/-! ### Values and keys -/

/-- A value that holds no other values. -/
def scalar? (cs : List Char) : Option (Value × List Char) :=
  match string? cs with
  | some (text, rest) => some (.string (String.ofList text), rest)
  | none =>
    if let some rest := Text.dropPrefix? ['t', 'r', 'u', 'e'] cs then some (.atom, rest)
    else if let some rest := Text.dropPrefix? ['f', 'a', 'l', 's', 'e'] cs then some (.atom, rest)
    else if let some rest := date? cs then some (.table [], rest)
    else (number? cs).map fun rest => (.atom, rest)

/-- A character of a key that stands without quotes. -/
def isKeyChar (c : Char) : Bool :=
  ('A' ≤ c && c ≤ 'Z') || ('a' ≤ c && c ≤ 'z') || Text.isDigit c || c = '-' || c = '_'

/-- A simple key: a string on one line, or characters that need no quotes. -/
def key? : List Char → Option (String × List Char)
  | '"' :: rest => (basicBody? 0 rest).map fun (key, rest) => (String.ofList key, rest)
  | '\'' :: rest => (literalBody? rest).map fun (key, rest) => (String.ofList key, rest)
  | cs =>
    match cs.takeWhile isKeyChar with
    | [] => none
    | key => some (String.ofList key, cs.dropWhile isKeyChar)

end MibDrivers.Toml
