import Mathlib.Tactic.SplitIfs
import MibDrivers.Json.Compact
import MibDrivers.Json.Token

/-!
# Written strings are read back

Each character of a string is read back from what was written for it: a character that stands for
itself, one that has an escape of its own, or a control character that is written as a unit of
16 bits. None of these units is half of a surrogate pair, so each of them is one character.

## Main definitions

* `Json.Token.writtenPiece` — the piece as which a written character is read

## Main results

* `Json.Token.pieces?_stringChar` — a character as written is read as one piece
* `Json.Token.next?_stringChars` — a string as written is read as one token
-/

namespace MibDrivers

namespace Json

namespace Token

/-- The control characters that have an escape of one letter. -/
def letteredControls : List Char := ['\n', '\r', '\t', '\x08', '\x0c']

/-- The piece as which a written character is read. -/
def writtenPiece (c : Char) : Piece :=
  if c.toNat < 0x20 ∧ c ∉ letteredControls then .unit c.toNat else .char c

variable {c escape : Char} {cs rest : List Char}

theorem pieces?_cons (hquote : c ≠ '"') (hbackslash : c ≠ '\\') (hcontrol : ¬ c.toNat < 0x20) :
    pieces? (c :: rest) = (pieces? rest).map fun (pieces, after) => (.char c :: pieces, after) := by
  rw [pieces?.eq_5 c rest hquote (fun _ _ _ _ _ h => absurd h hbackslash)
    (fun _ _ h => absurd h hbackslash), if_neg hcontrol]
  cases pieces? rest <;> rfl

theorem pieces?_escape (h : escaped? escape = some c) :
    pieces? ('\\' :: escape :: rest) =
      (pieces? rest).map fun (pieces, after) => (.char c :: pieces, after) := by
  have hu : escape ≠ 'u' := by
    rintro rfl
    cases h
  rw [pieces?.eq_4 escape rest (fun _ _ _ _ _ hescape => absurd hescape hu), h]
  cases pieces? rest <;> rfl

theorem pieces?_unit {n : Nat} {a b c d : Char} (h : hexValue? [a, b, c, d] = some n) :
    pieces? ('\\' :: 'u' :: a :: b :: c :: d :: rest) =
      (pieces? rest).map fun (pieces, after) => (.unit n :: pieces, after) := by
  rw [pieces?, h]
  cases pieces? rest <;> rfl

/-- The digits that are written for a control character are those of its number. -/
theorem hexValue?_control : ∀ n < 0x20,
    hexValue? ['0', '0', Nat.digitChar (n / 16), Nat.digitChar (n % 16)] = some n := by
  decide

/-- A character as written is read as one piece. -/
theorem pieces?_stringChar (c : Char) (rest : List Char) :
    pieces? (stringChar c ++ rest) =
      (pieces? rest).map fun (pieces, after) => (writtenPiece c :: pieces, after) := by
  unfold stringChar
  split_ifs with hquote hbackslash hn hr ht hb hf hcontrol
  · subst hquote
    exact pieces?_escape rfl
  · subst hbackslash
    exact pieces?_escape rfl
  · subst hn
    exact pieces?_escape rfl
  · subst hr
    exact pieces?_escape rfl
  · subst ht
    exact pieces?_escape rfl
  · subst hb
    exact pieces?_escape rfl
  · subst hf
    exact pieces?_escape rfl
  · -- A control character without a letter of its own is the only one that is read as a unit.
    have hpiece : writtenPiece c = .unit c.toNat := by
      rw [writtenPiece, if_pos ⟨hcontrol, by simp [letteredControls, hn, hr, ht, hb, hf]⟩]
    rw [hpiece]
    exact pieces?_unit (hexValue?_control c.toNat hcontrol)
  · rw [writtenPiece, if_neg fun h => hcontrol h.1]
    exact pieces?_cons hquote hbackslash hcontrol

/-- The characters of a string, up to its closing quote, are read one by one. -/
theorem pieces?_flatMap_stringChar (cs rest : List Char) :
    pieces? (cs.flatMap stringChar ++ '"' :: rest) = some (cs.map writtenPiece, rest) := by
  induction cs with
  | nil => rfl
  | cons c cs ih =>
    rw [List.flatMap_cons, List.append_assoc, pieces?_stringChar, ih]
    rfl

/-- A unit that is no surrogate is one character, whatever follows. -/
theorem textOfPieces?_unit {n : Nat} (h : n < 0xD800) (pieces : List Piece) :
    textOfPieces? (.unit n :: pieces) = (textOfPieces? pieces).map (Char.ofNat n :: ·) := by
  have hhigh : isHighSurrogate n = false := by
    simp only [isHighSurrogate, Bool.and_eq_false_iff, decide_eq_false_iff_not]
    omega
  have hlow : isLowSurrogate n = false := by
    simp only [isLowSurrogate, Bool.and_eq_false_iff, decide_eq_false_iff_not]
    omega
  cases pieces with
  | nil => simp [textOfPieces?, hhigh, hlow]
  | cons piece pieces => cases piece <;> simp [textOfPieces?, hhigh, hlow]

theorem textOfPieces?_writtenPiece (cs : List Char) :
    textOfPieces? (cs.map writtenPiece) = some cs := by
  induction cs with
  | nil => rfl
  | cons c cs ih =>
    rw [List.map_cons, writtenPiece]
    split_ifs with hcontrol
    · rw [textOfPieces?_unit (by omega), ih, Option.map_some, Char.ofNat_toNat]
    · rw [textOfPieces?, ih, Option.map_some]

/-- A string as written is read as one token. -/
theorem next?_stringChars (text : String) (rest : List Char) :
    next? (stringChars text ++ rest) = some (.string (some text), rest) := by
  rw [stringChars, List.cons_append, List.append_assoc, List.singleton_append, next?,
    pieces?_flatMap_stringChar]
  simp [textOfPieces?_writtenPiece]

end Token

end Json

end MibDrivers
