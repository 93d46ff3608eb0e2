import MibDrivers.Json.Basic

/-!
# JSON tokens

The tokens of a document. A string or a number may be well written and yet denote nothing:
a string with the escape of half a surrogate pair, a number beyond the binary64 range. Such
a token carries no value; whether that matters is decided where the token is used.

## Main definitions

* `Json.Token` — the tokens
* `Json.Token.ofChars?` — the tokens of a text

## Main results

* `Json.Token.length_lt_of_next` — a token takes at least one character, so the reading of a
  text ends
-/

namespace MibDrivers.Json

/-- A token of a document. -/
inductive Token where
  | openBrace
  | closeBrace
  | openBracket
  | closeBracket
  | colon
  | comma
  | null
  | bool (value : Bool)
  | string (text : Option String)
  | number (value : Option Number)
  deriving DecidableEq, Repr

namespace Token

/-! ### Strings -/

/-- A piece of a written string: a character, or the 16-bit unit of a numeric escape. -/
inductive Piece where
  | char (c : Char)
  | unit (value : Nat)
  deriving DecidableEq, Repr

/-- The value of a hexadecimal digit. -/
def hexDigit? (c : Char) : Option Nat :=
  if '0' ≤ c && c ≤ '9' then some (c.toNat - '0'.toNat)
  else if 'a' ≤ c && c ≤ 'f' then some (c.toNat - 'a'.toNat + 10)
  else if 'A' ≤ c && c ≤ 'F' then some (c.toNat - 'A'.toNat + 10)
  else none

/-- The value of hexadecimal digits, most significant first. -/
def hexValue? (cs : List Char) : Option Nat :=
  cs.foldlM (fun value c => (hexDigit? c).map (16 * value + ·)) 0

/-- The character that a one-letter escape stands for. -/
def escaped? : Char → Option Char
  | '"' => some '"'
  | '\\' => some '\\'
  | '/' => some '/'
  | 'b' => some '\x08'
  | 'f' => some '\x0c'
  | 'n' => some '\n'
  | 'r' => some '\r'
  | 't' => some '\t'
  | _ => none

/-- The pieces of a string after its opening quote, and what follows the closing one. -/
def pieces? : List Char → Option (List Piece × List Char)
  | [] => none
  | '"' :: rest => some ([], rest)
  | '\\' :: 'u' :: a :: b :: c :: d :: rest => do
    let value ← hexValue? [a, b, c, d]
    let (pieces, rest) ← pieces? rest
    return (.unit value :: pieces, rest)
  | '\\' :: c :: rest => do
    let c ← escaped? c
    let (pieces, rest) ← pieces? rest
    return (.char c :: pieces, rest)
  | c :: rest =>
    if c.toNat < 0x20 then none
    else do
      let (pieces, rest) ← pieces? rest
      return (.char c :: pieces, rest)

/-- A unit that opens a surrogate pair. -/
def isHighSurrogate (unit : Nat) : Bool := 0xD800 ≤ unit && unit ≤ 0xDBFF

/-- A unit that closes a surrogate pair. -/
def isLowSurrogate (unit : Nat) : Bool := 0xDC00 ≤ unit && unit ≤ 0xDFFF

/-- The text that pieces denote, if every surrogate is half of a pair. -/
def textOfPieces? : List Piece → Option (List Char)
  | [] => some []
  | .char c :: rest => (textOfPieces? rest).map (c :: ·)
  | .unit high :: .unit low :: rest =>
    if isHighSurrogate high then
      if isLowSurrogate low then
        let c := Char.ofNat (0x10000 + (high - 0xD800) * 0x400 + (low - 0xDC00))
        (textOfPieces? rest).map (c :: ·)
      else none
    else if isLowSurrogate high then none
    else (textOfPieces? (.unit low :: rest)).map (Char.ofNat high :: ·)
  | .unit value :: rest =>
    if isHighSurrogate value || isLowSurrogate value then none
    else (textOfPieces? rest).map (Char.ofNat value :: ·)

/-! ### Numbers -/

/-- The greatest significand that is gathered from the digits of a number. -/
def maxSignificand : Nat := 0xFFFFFFFFFFFFFFFF

/-- Gathers digits into a significand as long as it fits 64 bits, and counts the digits
gathered. -/
def gather (significand : Nat) : List Char → Nat × Nat
  | [] => (significand, 0)
  | c :: rest =>
    let next := 10 * significand + (c.toNat - '0'.toNat)
    if maxSignificand < next then (significand, 0)
    else
      let (value, count) := gather next rest
      (value, count + 1)

/-- The number that a literal denotes, or nothing if it is beyond the binary64 range. The
digits of the integer part that do not fit 64 bits count as powers of ten, those of the
fraction are dropped. -/
def numberOfParts? (negative : Bool) (whole : List Char) (fraction : Option (List Char))
    (exponent : Option Int) : Option Number :=
  let (significand, count) := gather 0 whole
  let skipped : Int := whole.length - count
  let integral := fraction.isNone && exponent.isNone && skipped = 0
  if integral && !negative then some (.integer significand)
  else if integral && 0 < significand && significand ≤ Text.signBit then
    some (.integer (-significand))
  else
    let (significand, places) := gather significand (fraction.getD [])
    let scale := skipped - places + exponent.getD 0
    ((Magnitude.ofQuotient significand 1).bind (·.scaleByTen scale)).map (.real negative)

/-- The digits at the beginning of a text, at least one, and what follows them. -/
def digits? (cs : List Char) : Option (List Char × List Char) :=
  match cs.takeWhile Text.isDigit with
  | [] => none
  | digits => some (digits, cs.dropWhile Text.isDigit)

/-- The fraction of a number, if there is one. -/
def fraction? : List Char → Option (Option (List Char) × List Char)
  | '.' :: rest => (digits? rest).map fun (digits, rest) => (some digits, rest)
  | rest => some (none, rest)

/-- Whether a minus sign comes first, and what follows the sign, which may be missing. -/
def minus : List Char → Bool × List Char
  | '-' :: rest => (true, rest)
  | rest => (false, rest)

/-- Whether a minus sign comes first, and what follows the sign, which may be missing or a
plus sign. -/
def sign : List Char → Bool × List Char
  | '+' :: rest => (false, rest)
  | rest => minus rest

/-- The exponent of a number, if there is one. -/
def exponent? : List Char → Option (Option Int × List Char)
  | c :: rest =>
    if c = 'e' || c = 'E' then
      let (negative, rest) := sign rest
      (digits? rest).map fun (digits, rest) =>
        let value : Int := Text.ofDecimal digits
        (some (if negative then -value else value), rest)
    else some (none, c :: rest)
  | [] => some (none, [])

/-- The integer part of a number: a zero, or digits that do not begin with one. -/
def whole? : List Char → Option (List Char × List Char)
  | '0' :: rest => some (['0'], rest)
  | rest => digits? rest

/-- The number at the beginning of a text, and what follows it. -/
def number? (cs : List Char) : Option (Token × List Char) := do
  let (negative, rest) := minus cs
  let (whole, rest) ← whole? rest
  let (fraction, rest) ← fraction? rest
  let (exponent, rest) ← exponent? rest
  return (.number (numberOfParts? negative whole fraction exponent), rest)

/-! ### Texts -/

/-- The characters that may stand between tokens. -/
def isSpace (c : Char) : Bool := c = ' ' || c = '\n' || c = '\t' || c = '\r'

/-- The token at the beginning of a text that begins with no space, and what follows
it. -/
def next? : List Char → Option (Token × List Char)
  | '\x7b' :: rest => some (.openBrace, rest)
  | '\x7d' :: rest => some (.closeBrace, rest)
  | '[' :: rest => some (.openBracket, rest)
  | ']' :: rest => some (.closeBracket, rest)
  | ':' :: rest => some (.colon, rest)
  | ',' :: rest => some (.comma, rest)
  | '"' :: rest => do
    let (pieces, rest) ← pieces? rest
    return (.string ((textOfPieces? pieces).map String.ofList), rest)
  | 'n' :: 'u' :: 'l' :: 'l' :: rest => some (.null, rest)
  | 't' :: 'r' :: 'u' :: 'e' :: rest => some (.bool true, rest)
  | 'f' :: 'a' :: 'l' :: 's' :: 'e' :: rest => some (.bool false, rest)
  | cs => number? cs

/-! ### Progress -/

/-- What follows a string is shorter than the text after the opening quote. -/
theorem length_lt_of_pieces {cs rest : List Char} {pieces : List Piece}
    (h : pieces? cs = some (pieces, rest)) : rest.length < cs.length := by
  fun_induction pieces? cs generalizing pieces rest with
  | case1 => simp at h
  | case2 after =>
    obtain ⟨rfl, rfl⟩ := by simpa using h
    simp
  | case3 a b c d after ih =>
    obtain ⟨value, _, found, hfound, _⟩ := by simpa [Option.bind_eq_some_iff] using h
    have := ih hfound
    simp only [List.length_cons]
    omega
  | case4 c after _ ih =>
    obtain ⟨value, _, found, hfound, _⟩ := by simpa [Option.bind_eq_some_iff] using h
    have := ih hfound
    simp only [List.length_cons]
    omega
  | case5 => simp at h
  | case6 c after _ _ _ _ ih =>
    obtain ⟨found, hfound, _⟩ := by simpa [Option.bind_eq_some_iff] using h
    have := ih hfound
    simp only [List.length_cons]
    omega

/-- What follows digits is shorter than the text that begins with them. -/
theorem length_lt_of_digits {cs digits rest : List Char}
    (h : digits? cs = some (digits, rest)) : rest.length < cs.length := by
  simp only [digits?] at h
  split at h
  · simp at h
  · rename_i hdigits
    obtain ⟨rfl, rfl⟩ := by simpa using h
    have hlength :=
      congrArg List.length (@List.takeWhile_append_dropWhile _ Text.isDigit cs)
    have hpos := List.length_pos_iff.2 hdigits
    simp only [List.length_append] at hlength
    omega

/-- What follows an integer part is shorter than the text that begins with it. -/
theorem length_lt_of_whole {cs digits rest : List Char}
    (h : whole? cs = some (digits, rest)) : rest.length < cs.length := by
  unfold whole? at h
  split at h
  · obtain ⟨rfl, rfl⟩ := by simpa using h
    simp
  · exact length_lt_of_digits h

/-- What follows a minus sign is no longer than the text that may begin with it. -/
theorem length_minus_le (cs : List Char) : (minus cs).2.length ≤ cs.length := by
  unfold minus
  split <;> simp

/-- What follows a sign is no longer than the text that may begin with it. -/
theorem length_sign_le (cs : List Char) : (sign cs).2.length ≤ cs.length := by
  unfold sign
  split
  · simp
  · exact length_minus_le _

/-- What follows a fraction is no longer than the text that may begin with it. -/
theorem length_le_of_fraction {cs rest : List Char} {fraction : Option (List Char)}
    (h : fraction? cs = some (fraction, rest)) : rest.length ≤ cs.length := by
  unfold fraction? at h
  split at h
  · obtain ⟨digits, hdigits, _⟩ := by simpa using h
    have := length_lt_of_digits hdigits
    simp only [List.length_cons]
    omega
  · obtain ⟨_, rfl⟩ := by simpa using h
    exact Nat.le_refl _

/-- What follows an exponent is no longer than the text that may begin with it. -/
theorem length_le_of_exponent {cs rest : List Char} {exponent : Option Int}
    (h : exponent? cs = some (exponent, rest)) : rest.length ≤ cs.length := by
  unfold exponent? at h
  split at h
  · rename_i c after
    split at h
    · obtain ⟨digits, hdigits, _⟩ := by simpa using h
      have := length_lt_of_digits hdigits
      have := length_sign_le after
      simp only [List.length_cons]
      omega
    · obtain ⟨_, rfl⟩ := by simpa using h
      exact Nat.le_refl _
  · obtain ⟨_, rfl⟩ := by simpa using h
    exact Nat.le_refl _

/-- What follows a number is shorter than the text that begins with it. -/
theorem length_lt_of_number {cs rest : List Char} {token : Token}
    (h : number? cs = some (token, rest)) : rest.length < cs.length := by
  obtain ⟨whole, first, hwhole, fraction, second, hfraction, exponent, hexponent, _⟩ := by
    simpa [number?, Option.bind_eq_some_iff] using h
  have := length_minus_le cs
  have := length_lt_of_whole hwhole
  have := length_le_of_fraction hfraction
  have := length_le_of_exponent hexponent
  omega

/-- What follows a token is shorter than the text that begins with it. -/
theorem length_lt_of_next {cs rest : List Char} {token : Token}
    (h : next? cs = some (token, rest)) : rest.length < cs.length := by
  unfold next? at h
  split at h
  case h_7 =>
    obtain ⟨pieces, hpieces, _⟩ := by simpa [Option.bind_eq_some_iff] using h
    have := length_lt_of_pieces hpieces
    simp only [List.length_cons]
    omega
  case h_11 => exact length_lt_of_number h
  all_goals
    obtain ⟨_, rfl⟩ := by simpa using h
    simp only [List.length_cons]
    omega

/-- The tokens of a text. -/
def ofChars? (cs : List Char) : Option (List Token) :=
  match cs with
  | [] => some []
  | c :: rest =>
    if isSpace c then ofChars? rest
    else match _found : next? (c :: rest) with
      | none => none
      | some (token, after) => (ofChars? after).map (token :: ·)
termination_by cs.length
decreasing_by
  · exact Nat.lt_succ_self rest.length
  · exact length_lt_of_next ‹_›

end Token

end MibDrivers.Json
