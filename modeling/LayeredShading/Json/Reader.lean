import LayeredShading.Json.Tree
import LayeredShading.SortedMap

/-!
# Reading JSON values

The value of a syntax tree. Containers are at most `depthLimit` deep, strings have to be text and
numbers within range; the fields of an object are sorted by name, and of two fields with the same
name the later one counts.
-/

namespace LayeredShading

/-- How many containers of a text may stand within each other. -/
def depthLimit : Nat := 127

namespace JsonTree

/-- The text of a string's units. -/
def textOfUnits? (units : List Nat) : Option String :=
  (JsonToken.decodeUnits? units).map String.ofList

mutual

/-- The value of a tree in which at most `depth` containers stand within each other. -/
def toJson? (depth : Nat) : JsonTree → Option Json
  | .null => some .null
  | .bool value => some (.bool value)
  | .number literal => literal.toNumber?.map .number
  | .string units => (textOfUnits? units).map .string
  | .array items => do
    guard (0 < depth)
    return .array (← itemsToJson? (depth - 1) items)
  | .object fields => do
    guard (0 < depth)
    return .object (SortedMap.ofList (← fieldsToJson? (depth - 1) fields)).entries

/-- The values of the items of an array. -/
def itemsToJson? (depth : Nat) : List JsonTree → Option (List Json)
  | [] => some []
  | item :: rest => do return (← toJson? depth item) :: (← itemsToJson? depth rest)

/-- The names and values of the fields of an object. -/
def fieldsToJson? (depth : Nat) : List (List Nat × JsonTree) → Option (List (String × Json))
  | [] => some []
  | (name, value) :: rest => do
    return (← textOfUnits? name, ← toJson? depth value) :: (← fieldsToJson? depth rest)

end

end JsonTree

namespace Json

/-- The value that a text spells. -/
def parse? (text : String) : Option Json := do
  (← JsonTree.ofText? text).toJson? depthLimit

end Json

end LayeredShading
