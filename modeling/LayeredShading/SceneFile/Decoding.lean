import LayeredShading.Json.Reader
import LayeredShading.SceneFile.Loading

/-!
# Reading scene files

The records of a scene file are JSON objects, whose unknown fields are skipped whatever they hold
and whose known fields appear at most once, or arrays that give the fields in order and may end
early. A record has required fields and fields that are as good as empty when they are left out;
where a field may be absent, null means the same. Everything else has to be of the expected kind.
-/

namespace LayeredShading

namespace JsonTree

/-- The text of a string. -/
def text? : JsonTree → Option String
  | .string units => textOfUnits? units
  | _ => none

/-- The truth value of `true` and `false`. -/
def bool? : JsonTree → Option Bool
  | .bool value => some value
  | _ => none

/-- The items of an array. -/
def list? {α : Type} (item? : JsonTree → Option α) : JsonTree → Option (List α)
  | .array items => items.mapM item?
  | _ => none

/-- A value that null stands for the absence of. -/
def optional? {α : Type} (value? : JsonTree → Option α) : JsonTree → Option (Option α)
  | .null => some none
  | tree => (value? tree).map some

/-- The texts by name that an object of strings holds. -/
def texts? : JsonTree → Option (SortedMap String String)
  | .object fields => do
    let entries ← fields.mapM fun (name, value) => do
      return (← textOfUnits? name, ← value.text?)
    return .ofList entries
  | _ => none

/-- The prim path that a string spells. -/
def path? (tree : JsonTree) : Option PrimPath := do
  (PrimPath.parse (← tree.text?)).toOption

/-- The property path that a string spells. -/
def propertyPath? (tree : JsonTree) : Option PropertyPath := do
  (PropertyPath.parse (← tree.text?)).toOption

/-- The specifier that a word stands for, either on its own or as the name of a null field. -/
def specifier? : JsonTree → Option Specifier
  | .string units => do ofWord? (← textOfUnits? units)
  | .object [(name, .null)] => do ofWord? (← textOfUnits? name)
  | _ => none
where
  /-- The specifier of a word. -/
  ofWord? (word : String) : Option Specifier :=
    [Specifier.define, .override].find? fun specifier => specifier.name == word

/-- The fields of a record that are given, by name. -/
def record? (names : List String) : JsonTree → Option (List (String × JsonTree))
  | .object fields => do
    let fields ← fields.mapM fun (name, value) => do return (← textOfUnits? name, value)
    let known := fields.filter fun field => names.contains field.1
    guard (known.map (·.1)).Nodup
    return known
  | .array items => do
    guard (items.length ≤ names.length)
    return names.zip items
  | _ => none

/-- A required field of a record. -/
def field? {α : Type} (fields : List (String × JsonTree)) (name : String)
    (value? : JsonTree → Option α) : Option α := do
  value? (← fields.lookup name)

/-- A field of a record that may be left out. -/
def fieldOr? {α : Type} (fields : List (String × JsonTree)) (name : String) (absent : α)
    (value? : JsonTree → Option α) : Option α :=
  match fields.lookup name with
  | some tree => value? tree
  | none => some absent

/-- The depth that is left for the default of an attribute, which stands within the scene, its
layers, a layer, its prims, a prim, its attributes and an attribute. -/
def defaultDepth : Nat := depthLimit - 7

/-- The description of an attribute. -/
def attributeDescription? (tree : JsonTree) : Option AttributeDescription := do
  let fields ← tree.record? ["name", "type", "default", "connections", "custom"]
  return {
    name := ← field? fields "name" text?
    typeName := ← field? fields "type" text?
    default := ← fieldOr? fields "default" none (optional? (toJson? defaultDepth))
    connections := ← fieldOr? fields "connections" none (optional? (list? propertyPath?))
    custom := ← fieldOr? fields "custom" false bool? }

/-- The description of a variant set. -/
def variantSet? (tree : JsonTree) : Option VariantSetSpec := do
  let fields ← tree.record? ["name", "variants"]
  return ⟨← field? fields "name" text?, ← fieldOr? fields "variants" [] (list? text?)⟩

/-- The description of a prim. -/
def primDescription? (tree : JsonTree) : Option PrimDescription := do
  let fields ← tree.record? ["path", "specifier", "type", "metadata", "attributes", "references",
    "specializes", "variantSets", "variantSelection"]
  return {
    path := ← field? fields "path" path?
    specifier := ← fieldOr? fields "specifier" .define specifier?
    typeName := ← fieldOr? fields "type" none (optional? text?)
    metadata := ← fieldOr? fields "metadata" .empty texts?
    attributes := ← fieldOr? fields "attributes" [] (list? attributeDescription?)
    references := ← fieldOr? fields "references" [] (list? path?)
    specializes := ← fieldOr? fields "specializes" none (optional? (list? path?))
    variantSets := ← fieldOr? fields "variantSets" [] (list? variantSet?)
    variantSelection := ← fieldOr? fields "variantSelection" .empty texts? }

/-- The description of a layer. -/
def layerDescription? (tree : JsonTree) : Option LayerDescription := do
  let fields ← tree.record? ["identifier", "prims"]
  return ⟨← field? fields "identifier" text?, ← fieldOr? fields "prims" [] (list? primDescription?)⟩

/-- The description of a scene. -/
def sceneDescription? (tree : JsonTree) : Option SceneDescription := do
  let fields ← tree.record? ["layers"]
  return ⟨← field? fields "layers" (list? layerDescription?)⟩

end JsonTree

namespace SceneDescription

/-- The description that the text of a scene file spells. -/
def parse (text : String) : Except Error SceneDescription :=
  match (JsonTree.ofText? text).bind JsonTree.sceneDescription? with
  | some description => .ok description
  | none => .error (.malformedText "the text is not a scene description")

end SceneDescription

namespace Stage

/-- The stage that the text of a scene file stands for. -/
def parse (text : String) : Except Error Stage := do
  ofDescription (← SceneDescription.parse text)

end Stage

end LayeredShading
