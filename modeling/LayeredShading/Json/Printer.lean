import LayeredShading.Json.Basic
import LayeredShading.Text.Quoted

/-!
# Writing JSON values

JSON text comes in two forms, compact and with two spaces of indentation per level. Strings escape
only what JSON demands. A double is written with the fewest digits that read back as it, in
positional notation with a digit on both sides of the point where its leading digit stands within
`positionalPlaces`, and with an exponent otherwise.
-/

namespace LayeredShading

namespace Json

/-- How a character is written in a JSON string. -/
def escapeChar (char : Char) : List Char :=
  match char with
  | '"' => ['\\', '"']
  | '\\' => ['\\', '\\']
  | '\x08' => ['\\', 'b']
  | '\x0c' => ['\\', 'f']
  | '\n' => ['\\', 'n']
  | '\r' => ['\\', 'r']
  | '\t' => ['\\', 't']
  | _ =>
    if char.toNat < 0x20 then
      let digits := Text.hexDigits char.toNat
      ['\\', 'u'] ++ List.replicate (4 - digits.length) '0' ++ digits
    else [char]

/-- The text of a JSON string. -/
def stringText (value : String) : String :=
  String.ofList ('"' :: value.toList.flatMap escapeChar ++ ['"'])

/-- Whether a double whose leading digit has this place is written without an exponent. -/
def positionalPlaces (place : Int) : Bool :=
  decide (-5 ≤ place) && decide (place ≤ 15)

/-- The text of a finite double. -/
def doubleText (value : Numeric.Double) : String :=
  let sign := if value.negative then "-" else ""
  let decimal := value.shortest .even
  sign ++
    if value.isZero then "0.0"
    else if positionalPlaces decimal.place then
      if decimal.exponent < 0 then decimal.positional else decimal.positional ++ ".0"
    else decimal.scientific

/-- The text of a number. -/
def numberText : JsonNumber → String
  | .integer value => toString value
  | .real value => doubleText value

mutual

/-- The text of a value without any blanks. -/
def compact : Json → String
  | .null => "null"
  | .bool value => if value then "true" else "false"
  | .number value => numberText value
  | .string value => stringText value
  | .array items => "[" ++ ",".intercalate (compactItems items) ++ "]"
  | .object fields => "\x7b" ++ ",".intercalate (compactFields fields) ++ "\x7d"

/-- The texts of the items of an array. -/
def compactItems : List Json → List String
  | [] => []
  | item :: rest => compact item :: compactItems rest

/-- The texts of the fields of an object. -/
def compactFields : List (String × Json) → List String
  | [] => []
  | (name, value) :: rest => (stringText name ++ ":" ++ compact value) :: compactFields rest

end

/-- The text of a container whose parts stand on lines of their own, one level further in. -/
def block (opening closing : String) (level : Nat) (parts : List String) : String :=
  if parts.isEmpty then opening ++ closing
  else
    let line (level : Nat) := "\n" ++ String.ofList (List.replicate (2 * level) ' ')
    let inner := line (level + 1)
    opening ++ inner ++ ("," ++ inner).intercalate parts ++ line level ++ closing

mutual

/-- The indented text of a value that stands at a level of indentation. -/
def prettyAt (level : Nat) : Json → String
  | .null => "null"
  | .bool value => if value then "true" else "false"
  | .number value => numberText value
  | .string value => stringText value
  | .array items => block "[" "]" level (prettyItems (level + 1) items)
  | .object fields => block "\x7b" "\x7d" level (prettyFields (level + 1) fields)

/-- The indented texts of the items of an array. -/
def prettyItems (level : Nat) : List Json → List String
  | [] => []
  | item :: rest => prettyAt level item :: prettyItems level rest

/-- The indented texts of the fields of an object. -/
def prettyFields (level : Nat) : List (String × Json) → List String
  | [] => []
  | (name, value) :: rest =>
    (stringText name ++ ": " ++ prettyAt level value) :: prettyFields level rest

end

/-- The indented text of a value. -/
def pretty (value : Json) : String := prettyAt 0 value

end Json

end LayeredShading
