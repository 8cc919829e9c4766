/-!
# Binary floating-point numbers

A format fixes the number of significand bits and of exponent bits. A number of the format is a
sign together with a magnitude code, and the codes are ordered like the magnitudes that they
stand for: code `0` is zero, the last code is infinity, and there is no not-a-number. Every finite
magnitude is a whole number of the smallest positive magnitude, its `units`, so each operation
takes the exact result as a quotient of natural numbers and rounds it once, to the nearest code
and on a tie to the even one.
-/

namespace LayeredShading

namespace Numeric

/-- A binary format: the number of significand bits, the leading one included, and the number of
exponent bits. -/
structure Format where
  precision : Nat
  exponentBits : Nat
  deriving DecidableEq, Repr

namespace Format

/-- The 32-bit format of attribute values. -/
def single : Format := ⟨24, 8⟩

/-- The 64-bit format of numbers in scene files. -/
def double : Format := ⟨53, 11⟩

/-- The number of codes that share an exponent. -/
def binade (format : Format) : Nat :=
  Nat.pow 2 (format.precision - 1)

/-- The code of infinity, one above the code of the largest finite magnitude. -/
def infinityCode (format : Format) : Nat :=
  (Nat.pow 2 format.exponentBits - 1) * format.binade

/-- The smallest positive magnitude is one over `2 ^ unitExponent`. -/
def unitExponent (format : Format) : Nat :=
  Nat.pow 2 (format.exponentBits - 1) - 2 + (format.precision - 1)

/-- The magnitude of a code, counted in the smallest positive magnitude. -/
def unitsOfCode (format : Format) (code : Nat) : Nat :=
  if code < format.binade then code
  else (code % format.binade + format.binade) * Nat.pow 2 (code / format.binade - 1)

end Format

/-- `roundQuotient numerator denominator` is the whole number nearest to the quotient; a half goes
to the even neighbour. -/
def roundQuotient (numerator denominator : Nat) : Nat :=
  let quotient := numerator / denominator
  let twice := 2 * (numerator % denominator)
  if twice < denominator then quotient
  else if denominator < twice then quotient + 1
  else quotient + quotient % 2

namespace Format

/-- The code nearest to a quotient of units. The significand keeps the leading `precision` bits of
the quotient; a significand that rounds up to the next power of two is the first code of the next
exponent, and everything from `infinityCode` on is infinity. -/
def codeOfUnits (format : Format) (numerator denominator : Nat) : Nat :=
  let whole := numerator / denominator
  let shift := whole.log2 + 1 - format.precision
  min format.infinityCode
    (roundQuotient numerator (denominator * Nat.pow 2 shift) + shift * format.binade)

theorem codeOfUnits_le (format : Format) (numerator denominator : Nat) :
    format.codeOfUnits numerator denominator ≤ format.infinityCode :=
  Nat.min_le_left _ _

end Format

/-- A number of a binary format. Zero carries a sign, and so does infinity. -/
structure Binary (format : Format) where
  negative : Bool
  code : Nat
  code_le : code ≤ format.infinityCode
  deriving DecidableEq

/-- The numbers that attribute values are made of. -/
abbrev Single := Binary .single

/-- The numbers that scene files are written with. -/
abbrev Double := Binary .double

namespace Binary

variable {format : Format}

/-- Two numbers are the same if sign and code are. -/
@[ext]
theorem ext {first second : Binary format} (negative_eq : first.negative = second.negative)
    (code_eq : first.code = second.code) : first = second := by
  cases first; cases second; simp_all

/-- Zero with the positive sign. -/
def zero : Binary format := ⟨false, 0, Nat.zero_le _⟩

instance : Inhabited (Binary format) := ⟨zero⟩

/-- Whether the number is an infinity. -/
def isInfinite (number : Binary format) : Bool :=
  number.code == format.infinityCode

/-- Whether the number is a zero of either sign. -/
def isZero (number : Binary format) : Bool :=
  number.code == 0

/-- The magnitude of a finite number, counted in the smallest positive magnitude. -/
def units (number : Binary format) : Nat :=
  format.unitsOfCode number.code

/-- The number nearest to a quotient of natural numbers, with a given sign. -/
def ofQuotient (negative : Bool) (numerator denominator : Nat) : Binary format :=
  ⟨negative, format.codeOfUnits (numerator * Nat.pow 2 format.unitExponent) denominator,
    format.codeOfUnits_le _ _⟩

/-- The number nearest to a natural number. -/
def ofNat (value : Nat) : Binary format :=
  ofQuotient false value 1

/-- The number nearest to an integer. -/
def ofInt (value : Int) : Binary format :=
  ofQuotient (decide (value < 0)) value.natAbs 1

/-- The same magnitude with a given sign. -/
def withSign (negative : Bool) (number : Binary format) : Binary format :=
  { number with negative := negative }

/-- The product of two finite numbers, rounded once. -/
def mul (first second : Binary format) : Binary format :=
  ofQuotient (first.negative != second.negative) (first.units * second.units)
    (Nat.pow 2 (2 * format.unitExponent))

/-- The quotient of two finite numbers, the second of them not zero, rounded once. -/
def div (first second : Binary format) : Binary format :=
  ofQuotient (first.negative != second.negative) first.units second.units

/-- The nearest number of another format. Infinity stays infinity, and a magnitude beyond the
largest finite one of the other format becomes infinity. -/
def convert {other : Format} (number : Binary format) : Binary other :=
  if number.isInfinite then ⟨number.negative, other.infinityCode, Nat.le_refl _⟩
  else ofQuotient number.negative number.units (Nat.pow 2 format.unitExponent)

end Binary

end Numeric

end LayeredShading
