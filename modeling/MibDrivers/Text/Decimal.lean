/-!
# Decimal numerals

Natural numbers as runs of ASCII digits. A numeral may carry leading zeros; the written
form never does.

## Main definitions

* `Text.isDigit` — the ASCII digits
* `Text.decimal` — the numeral of a natural number
* `Text.ofDecimal` — the value of a run of digits
* `Text.digits?` — the value of a text that consists of digits
* `Text.signBit` — the bound of signed 64-bit words
-/

namespace MibDrivers.Text

/-- The ten ASCII digits. -/
def isDigit (c : Char) : Bool := '0' ≤ c && c ≤ '9'

/-- The numeral of a natural number, without leading zeros. -/
def decimal (n : Nat) : List Char := Nat.toDigits 10 n

/-- The value of a run of digits, most significant first. -/
def ofDecimal (cs : List Char) : Nat := Nat.ofDigitChars 10 cs 0

/-- The value of the highest bit of a 64-bit word. The signed words lie from its negative up
to below it. -/
def signBit : Nat := 0x8000000000000000

/-- The value of a text that has at least one character and only digits. -/
def digits? (cs : List Char) : Option Nat :=
  if cs ≠ [] && cs.all isDigit then some (ofDecimal cs) else none

end MibDrivers.Text
