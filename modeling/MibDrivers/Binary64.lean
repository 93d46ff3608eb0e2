import MibDrivers.Text.Decimal

/-!
# Binary64 magnitudes and their shortest decimals

A finite nonnegative binary64 number is a significand below `2 ^ 53` times a power of two
whose exponent is at least `-1074`. Everything here is exact arithmetic on natural
numbers; the only inexact step is `Magnitude.ofQuotient`, which rounds a quotient to the
nearest magnitude, a tie to the one with even significand.

A magnitude is written with the fewest digits that still round to it, among those the
nearest. Of two that are as near, the format decides which one is written, and it decides
whether the digits are written with an exponent.

## Main definitions

* `Magnitude` — a finite nonnegative binary64 number
* `Magnitude.ofQuotient` — the magnitude nearest to a quotient
* `Magnitude.ofScientific` — the magnitude nearest to a decimal
* `Magnitude.scaleByTen` — a multiplication by a power of ten, rounded at each step
* `Magnitude.Tie` — which of two decimals is taken that are as near
* `Magnitude.shortest` — the fewest digits that round to a magnitude
* `Magnitude.positional`, `Magnitude.scientific` — digits without and with an exponent
-/

namespace MibDrivers

/-- A finite nonnegative binary64 number, `significand * 2 ^ exponent`. -/
structure Magnitude where
  significand : Nat
  exponent : Int
  deriving DecidableEq, Repr

namespace Magnitude

/-- The least exponent. -/
def minExponent : Int := -1074

/-- The greatest exponent. -/
def maxExponent : Int := 971

/-- The number zero. -/
def zero : Magnitude := ⟨0, minExponent⟩

/-- The quotient `num / den` rounded to the nearest natural number, a tie to the even
one. -/
def roundHalfEven (num den : Nat) : Nat :=
  let floor := num / den
  let twice := 2 * (num % den)
  if twice < den then floor
  else if den < twice then floor + 1
  else if floor % 2 = 0 then floor else floor + 1

/-- The fraction `num / den * 2 ^ shift` as a numerator and a denominator. -/
def shiftFraction (num den : Nat) (shift : Int) : Nat × Nat :=
  if 0 ≤ shift then (num <<< shift.toNat, den) else (num, den <<< (-shift).toNat)

/-- The exponent of the greatest power of two that is not above `num / den`. -/
def floorLog2 (num den : Nat) : Int :=
  let guess : Int := (Nat.log2 num : Int) - Nat.log2 den
  let (shifted, unit) := shiftFraction num den (-guess)
  if unit ≤ shifted then guess else guess - 1

/-- The magnitude nearest to `num / den`, or nothing if that is beyond the greatest
one. -/
def ofQuotient (num den : Nat) : Option Magnitude :=
  if num = 0 then some zero
  else
    let exponent := max minExponent (floorLog2 num den - 52)
    let (shifted, unit) := shiftFraction num den (-exponent)
    let significand := roundHalfEven shifted unit
    let rounded : Magnitude :=
      if significand = 1 <<< 53 then ⟨1 <<< 52, exponent + 1⟩ else ⟨significand, exponent⟩
    if maxExponent < rounded.exponent then none else some rounded

/-- The exact value as a numerator and a denominator. -/
def toFraction (x : Magnitude) : Nat × Nat := shiftFraction x.significand 1 x.exponent

/-- The powers of ten. -/
def tenTo (exponent : Nat) : Nat := Nat.pow 10 exponent

/-- The magnitude nearest to `digits * 10 ^ exponent`, or nothing if that is beyond the
greatest one. Exponents far outside the range are decided by the number of digits. -/
def ofScientific (digits : Nat) (exponent : Int) : Option Magnitude :=
  let scale : Int := (Text.decimal digits).length + exponent
  if digits = 0 || scale < -330 then some zero
  else if 310 < scale then none
  else if 0 ≤ exponent then ofQuotient (digits * tenTo exponent.toNat) 1
  else ofQuotient digits (tenTo (-exponent).toNat)

/-- The product of two magnitudes, rounded. -/
def mul (x y : Magnitude) : Option Magnitude :=
  let (xnum, xden) := x.toFraction
  let (ynum, yden) := y.toFraction
  ofQuotient (xnum * ynum) (xden * yden)

/-- The quotient of two magnitudes, rounded. -/
def div (x y : Magnitude) : Option Magnitude :=
  let (xnum, xden) := x.toFraction
  let (ynum, yden) := y.toFraction
  ofQuotient (xnum * yden) (xden * ynum)

/-- The greatest exponent of ten whose power is a magnitude. -/
def maxDecimalExponent : Nat := 308

/-- The magnitude nearest to a power of ten. -/
def powerOfTen (exponent : Nat) : Magnitude := (ofScientific 1 exponent).getD zero

/-- Divide by a power of ten in steps of the greatest power that is a magnitude, each
step rounded. -/
def divByTenPower (x : Magnitude) (exponent : Nat) : Magnitude :=
  if maxDecimalExponent < exponent then
    if x.significand = 0 then x
    else
      divByTenPower ((x.div (powerOfTen maxDecimalExponent)).getD zero)
        (exponent - maxDecimalExponent)
  else (x.div (powerOfTen exponent)).getD zero
termination_by exponent
decreasing_by simp only [maxDecimalExponent] at *; omega

/-- Multiply by a power of ten, or divide if the exponent is negative. Nothing results
beyond the greatest magnitude. -/
def scaleByTen (x : Magnitude) (exponent : Int) : Option Magnitude :=
  if exponent < 0 then some (x.divByTenPower (-exponent).toNat)
  else if exponent ≤ maxDecimalExponent then x.mul (powerOfTen exponent.toNat)
  else if x.significand = 0 then some x
  else none

/-- The decimal `digits * 10 ^ exponent` rounds to `x`. -/
def roundsTo (x : Magnitude) (digits : Nat) (exponent : Int) : Bool :=
  ofScientific digits exponent == some x

/-- The distance from `digits * 10 ^ exponent` to `x`, up to a factor that depends only on
`x` and `exponent`. -/
def distance (x : Magnitude) (digits : Nat) (exponent : Int) : Nat :=
  let (num, den) := x.toFraction
  let (decimal, scaled) :=
    if 0 ≤ exponent then (digits * tenTo exponent.toNat * den, num)
    else (digits * den, num * tenTo (-exponent).toNat)
  max decimal scaled - min decimal scaled

/-- The number of digits before the decimal point of a value of at least one; zero or less
counts the zeros after the point of a smaller value. -/
def decimalPoint (x : Magnitude) : Int :=
  let (num, den) := x.toFraction
  if den ≤ num then (Text.decimal (num / den)).length
  else 1 - (Text.decimal ((den - 1) / num)).length

/-- Which of two neighbouring decimals is taken that are as near: the greater one, or the one
whose last digit is even. -/
inductive Tie where
  | toGreater
  | toEven
  deriving DecidableEq, Repr

/-- The digits of at most the given number that round to `x`, as an integer and the
exponent of ten to multiply it with. Of two neighbours the nearer one counts. -/
def withDigits? (x : Magnitude) (tie : Tie) (count : Nat) : Option (Nat × Int) :=
  let exponent := x.decimalPoint - count
  let (num, den) := x.toFraction
  let below :=
    if 0 ≤ exponent then num / (den * tenTo exponent.toNat)
    else num * tenTo (-exponent).toNat / den
  let candidates := [below, below + 1].filter (x.roundsTo · exponent)
  match candidates with
  | [] => none
  | [digits] => some (digits, exponent)
  | first :: second :: _ =>
    let toFirst := x.distance first exponent
    let toSecond := x.distance second exponent
    if toFirst < toSecond || (toFirst = toSecond && tie = .toEven && first % 2 = 0) then
      some (first, exponent)
    else some (second, exponent)

/-- The fewest digits that round to `x`, as an integer and the exponent of ten to multiply
it with. Eighteen digits always suffice. A magnitude just below a power of ten may round
up to it, which leaves one zero to drop. -/
def shortest (x : Magnitude) (tie : Tie) : Nat × Int :=
  let (digits, exponent) :=
    ((List.range 18).findSome? fun count => x.withDigits? tie (count + 1)).getD (0, 0)
  if digits % 10 = 0 then (digits / 10, exponent + 1) else (digits, exponent)

/-- The decimal `value * 10 ^ exponent` with a decimal point where one is needed. -/
def positional (value : Nat) (exponent : Int) : List Char :=
  let digits := Text.decimal value
  if 0 ≤ exponent then digits ++ List.replicate exponent.toNat '0'
  else
    let places := (-exponent).toNat
    let padded := List.replicate (places + 1 - digits.length) '0' ++ digits
    padded.take (padded.length - places) ++ '.' :: padded.drop (padded.length - places)

/-- The decimal `value * 10 ^ exponent` with one digit before the decimal point, if there are
several, and an exponent that always has its sign. -/
def scientific (value : Nat) (exponent : Int) : List Char :=
  let digits := Text.decimal value
  let order : Int := exponent + digits.length - 1
  let fraction := if digits.length ≤ 1 then [] else '.' :: digits.drop 1
  digits.take 1 ++ fraction ++ 'e' :: (if order < 0 then '-' else '+') ::
    Text.decimal order.natAbs

end Magnitude

end MibDrivers
