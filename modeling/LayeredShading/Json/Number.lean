import LayeredShading.Json.Basic

/-!
# Reading JSON numbers

A number without fraction and exponent that fits an unsigned or a signed 64-bit word is an
integer; minus zero and every other number are doubles. A double is read in two steps: as many
digits as fit an unsigned 64-bit word form the significand, later digits of the whole part only
count as powers of ten, and later digits of the fraction are dropped; then the double nearest to
the significand is multiplied or divided by the double nearest to the power of ten. A number
beyond the largest double is refused.
-/

namespace LayeredShading

/-- A JSON number as it is written. -/
structure NumberLiteral where
  negative : Bool
  whole : List Nat
  fraction : List Nat
  exponent : Option (Bool × List Nat)
  deriving DecidableEq, Repr

namespace NumberLiteral

/-- The value of a decimal digit. -/
def digitValue (digit : Char) : Nat := digit.toNat - '0'.toNat

/-- Split off the digits at the start. -/
def spanDigits (chars : List Char) : List Nat × List Char :=
  ((chars.takeWhile Char.isDigit).map digitValue, chars.dropWhile Char.isDigit)

/-- The fraction at the start: a point and at least one digit. Without a point it is empty. -/
def takeFraction? : List Char → Option (List Nat × List Char)
  | '.' :: chars =>
    let (digits, rest) := spanDigits chars
    if digits.isEmpty then none else some (digits, rest)
  | chars => some ([], chars)

/-- The exponent at the start, which is the whole rest: a letter, a sign that may be left out and
at least one digit. The truth value says whether it is negative. -/
def takeExponent? : List Char → Option (Option (Bool × List Nat))
  | [] => some none
  | mark :: chars =>
    let (negative, chars) := match chars with
      | '-' :: rest => (true, rest)
      | '+' :: rest => (false, rest)
      | _ => (false, chars)
    let (digits, rest) := spanDigits chars
    if (mark == 'e' || mark == 'E') && !digits.isEmpty && rest.isEmpty then
      some (some (negative, digits))
    else none

/-- The number that characters spell. The whole part starts with zero only if it is zero. -/
def ofChars? (chars : List Char) : Option NumberLiteral := do
  let (negative, chars) := match chars with
    | '-' :: rest => (true, rest)
    | _ => (false, chars)
  let (whole, chars) := spanDigits chars
  let wholeOk := match whole with
    | [] => false
    | 0 :: _ :: _ => false
    | _ => true
  guard wholeOk
  let (fraction, chars) ← takeFraction? chars
  let exponent ← takeExponent? chars
  return ⟨negative, whole, fraction, exponent⟩

/-- The largest significand. -/
def significandLimit : Nat := Nat.pow 2 64 - 1

/-- The largest exponent that is read digit by digit. -/
def exponentLimit : Nat := Nat.pow 2 31 - 1

/-- Append digits to a number as long as it stays within a limit; what remains are the digits from
the first that does not fit. -/
def absorb (limit : Nat) (value : Nat) : List Nat → Nat × List Nat
  | [] => (value, [])
  | digit :: rest =>
    if value * 10 + digit ≤ limit then absorb limit (value * 10 + digit) rest
    else (value, digit :: rest)

/-- The double nearest to a power of ten. -/
def powerOfTen (exponent : Nat) : Numeric.Double := .ofQuotient false (Nat.pow 10 exponent) 1

/-- The largest exponent whose power of ten is a finite double. -/
def largestPower : Nat := 308

/-- Divide by the largest power of ten until the exponent is within its reach, then once more. The
count bounds the number of divisions. -/
def divideByPower (value : Numeric.Double) (exponent : Nat) : Nat → Numeric.Double
  | 0 => value
  | count + 1 =>
    if exponent ≤ largestPower then value.div (powerOfTen exponent)
    else if value.isZero then value
    else divideByPower (value.div (powerOfTen largestPower)) (exponent - largestPower) count

/-- A significand times a power of ten as a double, or `none` beyond the largest one. -/
def scale? (significand : Nat) (exponent : Int) : Option Numeric.Double :=
  let value := Numeric.Binary.ofNat significand
  if exponent < 0 then
    some (divideByPower value exponent.natAbs (exponent.natAbs / largestPower + 1))
  else if exponent.natAbs ≤ largestPower then
    let product := value.mul (powerOfTen exponent.natAbs)
    if product.isInfinite then none else some product
  else if value.isZero then some value
  else none

/-- The magnitude of a literal as a double, or `none` beyond the largest one. An exponent too long
to be read makes zero of any number that it makes small. -/
def magnitude? (literal : NumberLiteral) : Option Numeric.Double :=
  let (leading, dropped) := absorb significandLimit 0 literal.whole
  let (significand, ignored) := absorb significandLimit leading literal.fraction
  let start : Int := dropped.length - (literal.fraction.length - ignored.length : Nat)
  match literal.exponent with
  | none => scale? significand start
  | some (negative, digits) =>
    match absorb exponentLimit 0 digits with
    | (exponent, []) => scale? significand (if negative then start - exponent else start + exponent)
    | _ => if significand = 0 || negative then some .zero else none

/-- The integer that a literal spells, if it has neither fraction nor exponent and fits a 64-bit
word. Minus zero is no integer. -/
def integer? (literal : NumberLiteral) : Option Int :=
  if literal.fraction.isEmpty && literal.exponent.isNone then
    match absorb significandLimit 0 literal.whole with
    | (value, []) =>
      if !literal.negative then some value
      else if 0 < value && value ≤ Nat.pow 2 63 then some (-value)
      else none
    | _ => none
  else none

/-- The number that a literal stands for, or `none` beyond the largest double. -/
def toNumber? (literal : NumberLiteral) : Option JsonNumber :=
  match literal.integer? with
  | some value => some (.integer value)
  | none => literal.magnitude?.map fun value => .real (value.withSign literal.negative)

end NumberLiteral

end LayeredShading
