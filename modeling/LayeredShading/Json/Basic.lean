import LayeredShading.Numeric.Decimal

/-!
# JSON values

A JSON value as scene files and answers hold it. A number is an integer where its text is one and
it fits 64 bits, and a double otherwise; the fields of an object are listed in the order in which
they are written.
-/

namespace LayeredShading

/-- A JSON number. -/
inductive JsonNumber where
  | integer (value : Int)
  | real (value : Numeric.Double)
  deriving DecidableEq

/-- A JSON value. -/
inductive Json where
  | null
  | bool (value : Bool)
  | number (value : JsonNumber)
  | string (value : String)
  | array (items : List Json)
  | object (fields : List (String × Json))
  deriving Inhabited

namespace JsonNumber

/-- The double nearest to a number. -/
def toDouble : JsonNumber → Numeric.Double
  | integer value => .ofInt value
  | real value => value

end JsonNumber

namespace Json

/-- An integer as a JSON value. -/
def ofInt (value : Int) : Json := .number (.integer value)

/-- A natural number as a JSON value. -/
def ofNat (value : Nat) : Json := .ofInt value

/-- A double as a JSON value. JSON has no infinity, so an infinite number is written as null. -/
def ofDouble (value : Numeric.Double) : Json :=
  if value.isInfinite then .null else .number (.real value)

/-- A list of strings as a JSON value. -/
def ofStrings (values : List String) : Json := .array (values.map .string)

/-- A string that may be absent as a JSON value. -/
def ofString? (value : Option String) : Json := (value.map Json.string).getD .null

mutual

/-- Decide equality of JSON values. -/
def decideEq : (first second : Json) → Decidable (first = second)
  | .null, second => match second with
    | .null => .isTrue rfl
    | .bool _ | .number _ | .string _ | .array _ | .object _ => .isFalse nofun
  | .bool one, second => match second with
    | .bool two => decidable_of_iff (one = two) (by simp)
    | .null | .number _ | .string _ | .array _ | .object _ => .isFalse nofun
  | .number one, second => match second with
    | .number two => decidable_of_iff (one = two) (by simp)
    | .null | .bool _ | .string _ | .array _ | .object _ => .isFalse nofun
  | .string one, second => match second with
    | .string two => decidable_of_iff (one = two) (by simp)
    | .null | .bool _ | .number _ | .array _ | .object _ => .isFalse nofun
  | .array one, second => match second with
    | .array two => @decidable_of_iff _ (one = two) (by simp) (decideItemsEq one two)
    | .null | .bool _ | .number _ | .string _ | .object _ => .isFalse nofun
  | .object one, second => match second with
    | .object two => @decidable_of_iff _ (one = two) (by simp) (decideFieldsEq one two)
    | .null | .bool _ | .number _ | .string _ | .array _ => .isFalse nofun

/-- Decide equality of lists of JSON values. -/
def decideItemsEq : (first second : List Json) → Decidable (first = second)
  | [], [] => .isTrue rfl
  | [], _ :: _ => .isFalse nofun
  | _ :: _, [] => .isFalse nofun
  | one :: first, two :: second =>
    @decidable_of_iff _ (one = two ∧ first = second) (by simp)
      (@instDecidableAnd _ _ (decideEq one two) (decideItemsEq first second))

/-- Decide equality of lists of fields. -/
def decideFieldsEq : (first second : List (String × Json)) → Decidable (first = second)
  | [], [] => .isTrue rfl
  | [], _ :: _ => .isFalse nofun
  | _ :: _, [] => .isFalse nofun
  | (name, one) :: first, (other, two) :: second =>
    @decidable_of_iff _ (name = other ∧ one = two ∧ first = second)
      (by simp only [List.cons.injEq, Prod.mk.injEq, and_assoc])
      (@instDecidableAnd _ _ inferInstance
        (@instDecidableAnd _ _ (decideEq one two) (decideFieldsEq first second)))

end

instance : DecidableEq Json := decideEq

end Json

end LayeredShading
