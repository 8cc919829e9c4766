import LayeredShading.Numeric.Binary

/-!
# Shortest decimals

The decimal text of a binary number has as few digits as still read back as the number, and among
those the digits nearest to it. `Binary.shortest` finds the digits and the place of the last one;
`Decimal.positional` and `Decimal.scientific` write them.
-/

namespace LayeredShading

namespace Numeric

/-- The decimal `digits * 10 ^ exponent`. -/
structure Decimal where
  digits : Nat
  exponent : Int
  deriving DecidableEq, Repr

/-- Which of two decimals that are equally near to a number is taken. -/
inductive TieRule where
  /-- The one of larger magnitude. -/
  | up
  /-- The one whose last digit is even. -/
  | even
  deriving DecidableEq, Repr

/-- A quotient of powers of ten: `numerator * 10 ^ exponent` over `denominator`, as a pair of
natural numbers. -/
def scaleByTen (numerator denominator : Nat) (exponent : Int) : Nat × Nat :=
  (numerator * Nat.pow 10 exponent.toNat, denominator * Nat.pow 10 (-exponent).toNat)

/-- The number of decimal digits of a natural number. -/
def digitCount (value : Nat) : Nat :=
  (Nat.toDigits 10 value).length

/-- The place of the leading digit of a positive quotient, which is the largest `k` with `10 ^ k`
at most the quotient. Below one, `10 ^ k` is at least a fraction exactly if it exceeds the whole
part of `(denominator - 1) / numerator`. -/
def decimalPlace (numerator denominator : Nat) : Int :=
  if denominator ≤ numerator then (digitCount (numerator / denominator) : Int) - 1
  else -(digitCount ((denominator - 1) / numerator) : Int)

namespace Decimal

/-- The same decimal without trailing zero digits. -/
def trim (decimal : Decimal) : Decimal :=
  let text := Nat.toDigits 10 decimal.digits
  let zeros := (text.reverse.takeWhile (· == '0')).length
  if decimal.digits = 0 then ⟨0, 0⟩
  else ⟨decimal.digits / Nat.pow 10 zeros, decimal.exponent + zeros⟩

/-- The place of the leading digit: the decimal lies between `10 ^ place` and ten times that. -/
def place (decimal : Decimal) : Int :=
  decimal.exponent + digitCount decimal.digits - 1

/-- The decimal in positional notation, without an exponent and with no point after a whole
number. -/
def positional (decimal : Decimal) : String :=
  let text := Nat.toDigits 10 decimal.digits
  if decimal.exponent < 0 then
    let places := (-decimal.exponent).toNat
    let padded := List.replicate (places + 1 - text.length) '0' ++ text
    let whole := padded.take (padded.length - places)
    let fraction := padded.drop (padded.length - places)
    String.ofList (whole ++ '.' :: fraction)
  else
    String.ofList (text ++ List.replicate decimal.exponent.toNat '0')

/-- The decimal with one digit before the point and a signed exponent. -/
def scientific (decimal : Decimal) : String :=
  let place := decimal.place
  let mark := if place < 0 then "e-" else "e+"
  let mantissa := match Nat.toDigits 10 decimal.digits with
    | [] => "0"
    | [digit] => String.singleton digit
    | digit :: rest => String.ofList (digit :: '.' :: rest)
  mantissa ++ mark ++ toString place.natAbs

end Decimal

/-- The decimal of `count` digits nearest to the quotient, whose leading digit has the given
place, if it lies between the bounds, which are twice quotients of the same denominator. -/
def nearestOfCount (numerator denominator low high : Nat) (closed : Bool) (place : Int)
    (ties : TieRule) (count : Nat) : Option Decimal :=
  let exponent := place - (count : Int) + 1
  let (scaled, divisor) := scaleByTen numerator denominator (-exponent)
  let below := scaled / divisor
  let inside (candidate : Nat) : Bool :=
    let (value, unit) := scaleByTen (2 * candidate * denominator) 1 exponent
    if closed then decide (low * unit ≤ value) && decide (value ≤ high * unit)
    else decide (low * unit < value) && decide (value < high * unit)
  let twice := 2 * (scaled % divisor)
  let upperFirst : Bool := match ties with
    | .up => decide (divisor ≤ twice)
    | .even => decide (divisor < twice) || (decide (divisor = twice) && below % 2 == 1)
  let candidates := if upperFirst then [below + 1, below] else [below, below + 1]
  (candidates.find? inside).map fun digits => (Decimal.mk digits exponent).trim

namespace Binary

variable {format : Format}

/-- The shortest decimal that reads back as the magnitude of the finite number, and of those the
nearest to it. A decimal reads back as the number if it lies no farther than half way to the
neighbouring codes; the half way points themselves belong to the even code. -/
def shortest (ties : TieRule) (number : Binary format) : Decimal :=
  if number.code = 0 then ⟨0, 0⟩
  else
    let units := number.units
    let denominator := Nat.pow 2 format.unitExponent
    let low := units + format.unitsOfCode (number.code - 1)
    let high := units + format.unitsOfCode (number.code + 1)
    let place := decimalPlace units denominator
    let longest := format.precision / 3 + 1
    let counts := (List.range longest).map (· + 1)
    (counts.findSome?
      (nearestOfCount units denominator low high (number.code % 2 == 0) place ties)).getD ⟨0, 0⟩

end Binary

end Numeric

end LayeredShading
