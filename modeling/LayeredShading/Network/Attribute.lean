import LayeredShading.Schema
import LayeredShading.Stage.Authoring

/-!
# Attributes

An attribute of a prim need not be declared to be spoken of. Where nothing is authored, its type and
value are those of the schema of the prim's type. Setting a value declares the attribute if that is
needed, and creating one can be sparse: what the schema says anyway is then not written.
-/

namespace LayeredShading

namespace Attribute

/-- The definition of an attribute in the schema of its prim's type. -/
def definition? (stage : Stage) (path : PropertyPath) : Option AttributeDefinition := do
  Schema.attribute? (← (← stage.prim? path.prim).typeName) path.name

/-- Whether the attribute is declared on the composed prim. -/
def isDeclared (stage : Stage) (path : PropertyPath) : Bool := (stage.attribute? path).isSome

/-- Whether any opinion authors a default. -/
def hasDefault (stage : Stage) (path : PropertyPath) : Bool :=
  (stage.attribute? path).any ComposedAttribute.hasDefault

/-- The type of the attribute: the declared one, or the one in the schema. -/
def type? (stage : Stage) (path : PropertyPath) : Option ValueType :=
  match stage.attribute? path with
  | some composed => some composed.type
  | none => (definition? stage path).map (·.type)

/-- The value of the attribute: the default, or the one in the schema. -/
def value? (stage : Stage) (path : PropertyPath) : Option Value :=
  match (stage.attribute? path).bind (·.default) with
  | some value => some value
  | none => (definition? stage path).bind (·.fallback)

/-- Set the value of an attribute, which is declared with the type of the value if it is not
declared yet. -/
def assign (path : PropertyPath) (value : Value) : Edit Unit := do
  let stage ← get
  if !isDeclared stage path then
    Edit.createAttribute path value.type (definition? stage path).isNone
  Edit.setDefault path value

/-- Remove the value at the edit target. -/
def clear (path : PropertyPath) : Edit Unit := Edit.clearDefault path

/-- Declare an attribute of a prim with a schema type, and set its default if one is given. A sparse
declaration of an attribute of the schema is left out if no default is given, and if the default is
that of the schema and nothing is authored yet. -/
def create (prim : PrimPath) (typeName name : String) (type : ValueType) (default : Option Value)
    (sparse : Bool) : Edit PropertyPath := do
  let path ← Edit.check (prim.property name)
  let stage ← get
  let definition := Schema.attribute? typeName name
  let redundant := match default with
    | none => true
    | some _ => !hasDefault stage path && default == definition.bind (·.fallback)
  if sparse && definition.isSome && redundant then return path
  Edit.createAttribute path type definition.isNone
  if let some value := default then Edit.setDefault path value
  return path

end Attribute

end LayeredShading
