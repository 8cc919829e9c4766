import LayeredShading.Error
import LayeredShading.Json.Printer

/-!
# Attribute values

An attribute declares a type, and its value has to be of that type. Values are written to and read
from JSON in the shape of their type: a vector is an array of as many numbers as it has
components, a token, string or asset is a string.
-/

namespace LayeredShading

open Numeric (Single)

/-- The type that an attribute declares. -/
inductive ValueType where
  | token
  | bool
  | int
  | float
  | float2
  | float3
  | float4
  | color3f
  | normal3f
  | string
  | asset
  deriving DecidableEq, Repr, Inhabited

namespace ValueType

/-- Every type. -/
def all : List ValueType :=
  [token, bool, int, float, float2, float3, float4, color3f, normal3f, string, asset]

/-- The name of a type in scene files. -/
def name : ValueType → String
  | token => "token"
  | bool => "bool"
  | int => "int"
  | float => "float"
  | float2 => "float2"
  | float3 => "float3"
  | float4 => "float4"
  | color3f => "color3f"
  | normal3f => "normal3f"
  | string => "string"
  | asset => "asset"

/-- The type of a name. -/
def ofName? (name : String) : Option ValueType :=
  all.find? fun type => type.name == name

/-- The name of a type leads back to it. -/
theorem ofName?_name (type : ValueType) : ofName? type.name = some type := by
  cases type <;> decide

end ValueType

/-- The value of an attribute. -/
inductive Value where
  | token (text : String)
  | bool (value : Bool)
  | int (value : Int32)
  | float (value : Single)
  | float2 (x y : Single)
  | float3 (x y z : Single)
  | float4 (x y z w : Single)
  | color3f (red green blue : Single)
  | normal3f (x y z : Single)
  | string (text : String)
  | asset (path : String)
  deriving DecidableEq

namespace Value

/-- The type of a value. -/
def type : Value → ValueType
  | token _ => .token
  | bool _ => .bool
  | int _ => .int
  | float _ => .float
  | float2 .. => .float2
  | float3 .. => .float3
  | float4 .. => .float4
  | color3f .. => .color3f
  | normal3f .. => .normal3f
  | string _ => .string
  | asset _ => .asset

/-- The text of a token, string or asset. -/
def text? : Value → Option String
  | token text | string text | asset text => some text
  | _ => none

/-- The number of a float or an integer. -/
def float? : Value → Option Single
  | float value => some value
  | int value => some (.ofInt value.toInt)
  | _ => none

/-- The components of a vector of three. -/
def vector3? : Value → Option (Single × Single × Single)
  | float3 x y z | color3f x y z | normal3f x y z => some (x, y, z)
  | _ => none

/-- The components of a float or vector in order, and nothing for other values. -/
def components : Value → List Single
  | float x => [x]
  | float2 x y => [x, y]
  | float3 x y z | color3f x y z | normal3f x y z => [x, y, z]
  | float4 x y z w => [x, y, z, w]
  | _ => []

/-- Whether no component is infinite. -/
def isFinite (value : Value) : Bool :=
  value.components.all fun component => !component.isInfinite

/-- A number of the attribute format from a JSON number. -/
def single? : Json → Option Single
  | .number value => some value.toDouble.convert
  | _ => none

/-- The integer that an attribute holds, if it keeps its value in 32 bits. -/
def int32? (value : Int) : Option Int32 :=
  if (Int32.ofInt value).toInt = value then some (.ofInt value) else none

/-- The components of an array of numbers. -/
def singles? : Json → Option (List Single)
  | .array items => items.mapM single?
  | _ => none

/-- The value of a type that JSON stands for, if it has the shape of the type. -/
def ofJson? (type : ValueType) (json : Json) : Option Value :=
  match type, json with
  | .token, .string text => some (token text)
  | .string, .string text => some (string text)
  | .asset, .string path => some (asset path)
  | .bool, .bool value => some (bool value)
  | .int, .number (.integer value) => (int32? value).map int
  | .float, _ => (single? json).map float
  | .float2, _ => match singles? json with
    | some [x, y] => some (float2 x y)
    | _ => none
  | .float3, _ => match singles? json with
    | some [x, y, z] => some (float3 x y z)
    | _ => none
  | .color3f, _ => match singles? json with
    | some [red, green, blue] => some (color3f red green blue)
    | _ => none
  | .normal3f, _ => match singles? json with
    | some [x, y, z] => some (normal3f x y z)
    | _ => none
  | .float4, _ => match singles? json with
    | some [x, y, z, w] => some (float4 x y z w)
    | _ => none
  | _, _ => none

/-- The value of a type that JSON stands for. -/
def ofJson (type : ValueType) (json : Json) : Except Error Value :=
  match ofJson? type json with
  | some value => .ok value
  | none => .error (.invalidValue (json.compact ++ " is not a valid " ++ type.name))

/-- A number of the attribute format as JSON. -/
def singleToJson (value : Single) : Json := .ofDouble value.convert

/-- A value as JSON. -/
def toJson : Value → Json
  | token text | string text | asset text => .string text
  | bool value => .bool value
  | int value => .ofInt value.toInt
  | float value => singleToJson value
  | float2 x y => .array [singleToJson x, singleToJson y]
  | float3 x y z | color3f x y z | normal3f x y z =>
    .array [singleToJson x, singleToJson y, singleToJson z]
  | float4 x y z w =>
    .array [singleToJson x, singleToJson y, singleToJson z, singleToJson w]

/-- A number of the attribute format as text: the fewest digits that read back as it, without an
exponent. -/
def singleText (value : Single) : String :=
  (if value.negative then "-" else "") ++
    if value.isInfinite then "inf" else (value.shortest .up).positional

/-- Components between parentheses. -/
def tupleText (values : List Single) : String :=
  "(" ++ ", ".intercalate (values.map singleText) ++ ")"

/-- A value as text for a reader. -/
def display : Value → String
  | token text | string text => Text.quote text
  | asset path => "@" ++ path ++ "@"
  | bool value => if value then "true" else "false"
  | int value => toString value.toInt
  | float value => singleText value
  | float2 x y => tupleText [x, y]
  | float3 x y z | color3f x y z | normal3f x y z => tupleText [x, y, z]
  | float4 x y z w => tupleText [x, y, z, w]

end Value

end LayeredShading
