import LayeredShading.Value

/-!
# Schemas

A prim type has a definition that names the attributes every prim of the type has, each with its
type and, for some, the value that holds where none is authored.
-/

namespace LayeredShading

/-- The type name of materials. -/
def materialType : String := "Material"

/-- The type name of node graphs. -/
def nodeGraphType : String := "NodeGraph"

/-- The type name of shaders. -/
def shaderType : String := "Shader"

/-- The attribute that identifies a shader. -/
def idAttribute : String := "info:id"

/-- The attribute that says how a shader is identified. -/
def implementationAttribute : String := "info:implementationSource"

/-- The definition of an attribute. -/
structure AttributeDefinition where
  name : String
  type : ValueType
  fallback : Option Value
  deriving DecidableEq

/-- The definition of a prim type. -/
structure PrimDefinition where
  name : String
  attributes : List AttributeDefinition
  deriving DecidableEq

namespace Schema

/-- The definitions, by type name in ascending order. -/
def definitions : List PrimDefinition := [
  ⟨materialType, [
    ⟨"outputs:surface", .token, none⟩,
    ⟨"outputs:displacement", .token, none⟩,
    ⟨"outputs:volume", .token, none⟩]⟩,
  ⟨nodeGraphType, []⟩,
  ⟨shaderType, [
    ⟨idAttribute, .token, none⟩,
    ⟨implementationAttribute, .token, some (.token "id")⟩]⟩]

/-- The names of the types that have a definition. -/
def typeNames : List String := definitions.map (·.name)

/-- The definition of a prim type. -/
def prim? (typeName : String) : Option PrimDefinition :=
  definitions.find? fun definition => definition.name == typeName

/-- The definition of an attribute of a prim type. -/
def attribute? (typeName name : String) : Option AttributeDefinition := do
  (← prim? typeName).attributes.find? fun definition => definition.name == name

/-- The value of an attribute of a prim type where none is authored. -/
def fallback? (typeName name : String) : Option Value := do
  (← attribute? typeName name).fallback

end Schema

end LayeredShading
