import LayeredShading.Stage.Basic

/-!
# Scene descriptions

A description is the content of a scene file: the layers of a stage, strongest first, and in each
the specs in the order of their paths. It is a plain record of what is written, so a type name in it
need not be one and a default need not fit its type; `Stage.describe` gives a description that a
stage can be made from again.
-/

namespace LayeredShading

/-- What a scene file says about an attribute. -/
structure AttributeDescription where
  name : String
  typeName : String
  default : Option Json
  connections : Option (List PropertyPath)
  custom : Bool
  deriving DecidableEq

/-- What a layer of a scene file says about a prim. -/
structure PrimDescription where
  path : PrimPath
  specifier : Specifier
  typeName : Option String
  metadata : SortedMap String String
  attributes : List AttributeDescription
  references : List PrimPath
  specializes : Option (List PrimPath)
  variantSets : List VariantSetSpec
  variantSelection : SortedMap String String
  deriving DecidableEq

/-- A layer of a scene file. -/
structure LayerDescription where
  identifier : String
  prims : List PrimDescription
  deriving DecidableEq

/-- The content of a scene file. -/
structure SceneDescription where
  layers : List LayerDescription
  deriving DecidableEq

namespace AttributeSpec

/-- The description of an attribute. -/
def describe (name : String) (spec : AttributeSpec) : AttributeDescription where
  name := name
  typeName := spec.type.name
  default := spec.default.map Value.toJson
  connections := spec.connections
  custom := spec.custom

end AttributeSpec

namespace PrimSpec

/-- The description of a prim. -/
def describe (path : PrimPath) (spec : PrimSpec) : PrimDescription where
  path := path
  specifier := spec.specifier
  typeName := spec.typeName
  metadata := .ofList spec.metadata.entries
  attributes := spec.attributes.entries.map fun entry => entry.2.describe entry.1
  references := spec.references
  specializes := spec.specializes
  variantSets := spec.variantSets
  variantSelection := spec.variantSelection

end PrimSpec

namespace Layer

/-- The description of a layer. -/
def describe (layer : Layer) : LayerDescription where
  identifier := layer.identifier
  prims := layer.specs.entries.map fun entry => entry.2.describe entry.1

end Layer

namespace Stage

/-- The description of a stage. -/
def describe (stage : Stage) : SceneDescription := ⟨stage.layers.map Layer.describe⟩

end Stage

end LayeredShading
