import LayeredShading.Json.Printer
import LayeredShading.SceneFile.Description

/-!
# Writing scene files

A scene file is an indented JSON text. The fields of each object come in a fixed order, and a field
that is not authored or is empty is left out, except that the identifier and prims of a layer, the
path and specifier of a prim and the variants of a variant set are always written. An authored empty
list of connections or of specialized prims is written, as it is an opinion.
-/

namespace LayeredShading

/-- A field that is left out if its value is absent. -/
def optionalField (name : String) (value : Option Json) : List (String × Json) :=
  match value with
  | some value => [(name, value)]
  | none => []

/-- A field that holds an array and is left out if it is empty. -/
def listField (name : String) (items : List Json) : List (String × Json) :=
  if items.isEmpty then [] else [(name, .array items)]

/-- A field that holds texts by name and is left out if there are none. -/
def textsField (name : String) (texts : SortedMap String String) : List (String × Json) :=
  if texts.isEmpty then []
  else [(name, .object (texts.entries.map fun entry => (entry.1, .string entry.2)))]

/-- Paths as JSON. -/
def pathsToJson (paths : List PrimPath) : List Json := paths.map fun path => .string path.text

namespace AttributeDescription

/-- The description of an attribute as JSON. -/
def toJson (description : AttributeDescription) : Json :=
  .object (
    [("name", .string description.name), ("type", .string description.typeName)] ++
    optionalField "default" description.default ++
    optionalField "connections" (description.connections.map fun paths =>
      .array (paths.map fun path => .string path.text)) ++
    if description.custom then [("custom", .bool true)] else [])

end AttributeDescription

namespace VariantSetSpec

/-- The description of a variant set as JSON. -/
def toJson (set : VariantSetSpec) : Json :=
  .object [("name", .string set.name), ("variants", .ofStrings set.variants)]

end VariantSetSpec

namespace PrimDescription

/-- The description of a prim as JSON. -/
def toJson (description : PrimDescription) : Json :=
  .object (
    [("path", .string description.path.text),
      ("specifier", .string description.specifier.name)] ++
    optionalField "type" (description.typeName.map .string) ++
    textsField "metadata" description.metadata ++
    listField "attributes" (description.attributes.map AttributeDescription.toJson) ++
    listField "references" (pathsToJson description.references) ++
    optionalField "specializes" (description.specializes.map fun paths =>
      .array (pathsToJson paths)) ++
    listField "variantSets" (description.variantSets.map VariantSetSpec.toJson) ++
    textsField "variantSelection" description.variantSelection)

end PrimDescription

namespace LayerDescription

/-- The description of a layer as JSON. -/
def toJson (description : LayerDescription) : Json :=
  .object [("identifier", .string description.identifier),
    ("prims", .array (description.prims.map PrimDescription.toJson))]

end LayerDescription

namespace SceneDescription

/-- The description of a scene as JSON. -/
def toJson (description : SceneDescription) : Json :=
  .object [("layers", .array (description.layers.map LayerDescription.toJson))]

/-- The text of the scene file. -/
def text (description : SceneDescription) : String := description.toJson.pretty

end SceneDescription

end LayeredShading
