/-!
# UTF-8

The bytes of a text are those of its characters one after another. A byte sequence is decoded one
character at a time. Where the next bytes are no character, either the sequence ends within one, or
the bytes that could begin one are followed by a byte that cannot continue it. Such an invalid part
is as long as possible, and at least one byte long.

## Main definitions

* `Utf8.encode` — the bytes of a text
* `Utf8.next` — what a byte sequence begins with
* `Utf8.decode` — the text of a valid sequence, or where it is invalid
* `Utf8.decodeLossy` — the text with a replacement character for each invalid part
-/

namespace MibDrivers.Utf8

/-- The bytes of a text. -/
def encode (text : String) : List UInt8 := text.toList.flatMap String.utf8EncodeChar

/-- Why a byte sequence is no text. -/
inductive Error where
  /-- `length` bytes from `index` on begin no character. -/
  | invalid (length index : Nat)
  /-- The sequence ends within a character that begins at `index`. -/
  | incomplete (index : Nat)
  deriving DecidableEq, Repr

/-- The wording of an error. -/
def Error.message : Error → String
  | .invalid length index =>
    "invalid utf-8 sequence of " ++ toString length ++ " bytes from index " ++ toString index
  | .incomplete index => "incomplete utf-8 byte sequence from index " ++ toString index

/-- The ranges of the bytes that follow a first byte, if it begins a character. -/
def followers? (first : UInt8) : Option (List (UInt8 × UInt8)) :=
  if first < 0x80 then some []
  else if 0xC2 ≤ first && first ≤ 0xDF then some [(0x80, 0xBF)]
  else if first = 0xE0 then some [(0xA0, 0xBF), (0x80, 0xBF)]
  else if first = 0xED then some [(0x80, 0x9F), (0x80, 0xBF)]
  else if 0xE1 ≤ first && first ≤ 0xEF then some [(0x80, 0xBF), (0x80, 0xBF)]
  else if first = 0xF0 then some [(0x90, 0xBF), (0x80, 0xBF), (0x80, 0xBF)]
  else if 0xF1 ≤ first && first ≤ 0xF3 then some [(0x80, 0xBF), (0x80, 0xBF), (0x80, 0xBF)]
  else if first = 0xF4 then some [(0x80, 0x8F), (0x80, 0xBF), (0x80, 0xBF)]
  else none

/-- How many bytes lie in their ranges before one does not or there are no more. -/
def countFitting : List (UInt8 × UInt8) → List UInt8 → Nat
  | (low, high) :: ranges, b :: bytes =>
    if low ≤ b && b ≤ high then countFitting ranges bytes + 1 else 0
  | _, _ => 0

/-- The payload bits of a first byte that `count` bytes follow. -/
def leadBits (first : UInt8) (count : Nat) : Nat :=
  match count with
  | 0 => first.toNat
  | 1 => first.toNat % 0x20
  | 2 => first.toNat % 0x10
  | _ => first.toNat % 0x08

/-- The character of a first byte and the bytes that follow it. -/
def charOf (first : UInt8) (following : List UInt8) : Char :=
  Char.ofNat <| following.foldl (fun value b => value * 0x40 + b.toNat % 0x40)
    (leadBits first following.length)

/-- What a byte sequence begins with. -/
inductive Head where
  | char (c : Char) (length : Nat)
  | invalid (length : Nat)
  | incomplete
  deriving DecidableEq, Repr

/-- What a byte and the bytes after it begin with. -/
def next (first : UInt8) (rest : List UInt8) : Head :=
  match followers? first with
  | none => .invalid 1
  | some ranges =>
    let fitting := countFitting ranges rest
    if fitting = ranges.length then .char (charOf first (rest.take fitting)) (fitting + 1)
    else if fitting = rest.length then .incomplete
    else .invalid (fitting + 1)

/-- The text of the bytes from `index` on, of which the first `skip` are already taken. -/
def decodeFrom (index skip : Nat) : List UInt8 → Except Error (List Char)
  | [] => .ok []
  | first :: rest =>
    match skip with
    | skip + 1 => decodeFrom (index + 1) skip rest
    | 0 =>
      match next first rest with
      | .char c length => (decodeFrom (index + 1) (length - 1) rest).map (c :: ·)
      | .invalid length => .error (.invalid length index)
      | .incomplete => .error (.incomplete index)

/-- The text of a byte sequence. -/
def decode (bytes : List UInt8) : Except Error String :=
  (decodeFrom 0 0 bytes).map String.ofList

/-- The character that stands for an invalid part. -/
def replacement : Char := Char.ofNat 0xFFFD

/-- The text of the bytes of which the first `skip` are already taken, with a replacement
for each invalid part. -/
def decodeLossyFrom (skip : Nat) : List UInt8 → List Char
  | [] => []
  | first :: rest =>
    match skip with
    | skip + 1 => decodeLossyFrom skip rest
    | 0 =>
      match next first rest with
      | .char c length => c :: decodeLossyFrom (length - 1) rest
      | .invalid length => replacement :: decodeLossyFrom (length - 1) rest
      | .incomplete => [replacement]

/-- The text of a byte sequence, with a replacement for each invalid part. -/
def decodeLossy (bytes : List UInt8) : String := String.ofList (decodeLossyFrom 0 bytes)

end MibDrivers.Utf8
