import LayeredShading.Network.Material

/-!
# Shaders and node graphs

A shader computes values from its inputs and gives them at its outputs. A node graph holds shaders
and passes values through its own outputs.
-/

namespace LayeredShading

namespace Shader

/-- Whether a prim composes as a shader. -/
def isShader (stage : Stage) (path : PrimPath) : Bool := stage.isA path shaderType

/-- Define a shader. -/
def define (path : PrimPath) : Edit Unit := Edit.definePrim path (some shaderType)

/-- Declare an output of a shader. -/
def createOutput (shader : PrimPath) (name : String) (type : ValueType) : Edit PropertyPath :=
  Output.create shader shaderType name type

/-- The input of a shader with a name. -/
def input (shader : PrimPath) (name : String) : Except Error PropertyPath :=
  shader.property (inputsNamespace ++ name)

/-- Set the value of an input. -/
def setInput (shader : PrimPath) (name : String) (value : Value) : Edit Unit := do
  Attribute.assign (← Edit.check (input shader name)) value

/-- The attribute that identifies a shader. -/
def idPath (shader : PrimPath) : Except Error PropertyPath := shader.property idAttribute

/-- The attribute that says how a shader is identified. -/
def implementationPath (shader : PrimPath) : Except Error PropertyPath :=
  shader.property implementationAttribute

/-- Declare the identifier of a shader. -/
def createId (shader : PrimPath) (default : Option String) (sparse : Bool) : Edit PropertyPath :=
  Attribute.create shader shaderType idAttribute .token (default.map .token) sparse

/-- Declare how a shader is identified. -/
def createImplementation (shader : PrimPath) (default : Option String) (sparse : Bool) :
    Edit PropertyPath :=
  Attribute.create shader shaderType implementationAttribute .token (default.map .token) sparse

/-- The text that an attribute of a shader has for a value. -/
def text? (stage : Stage) (path : Except Error PropertyPath) : Option String := do
  (← Attribute.value? stage (← path.toOption)).text?

/-- The identifier of a shader. -/
def id? (stage : Stage) (shader : PrimPath) : Option String := text? stage (idPath shader)

/-- How a shader is identified. -/
def implementation? (stage : Stage) (shader : PrimPath) : Option String :=
  text? stage (implementationPath shader)

end Shader

namespace NodeGraph

/-- Whether a prim composes as a node graph. -/
def isNodeGraph (stage : Stage) (path : PrimPath) : Bool := stage.isA path nodeGraphType

/-- Define a node graph. -/
def define (path : PrimPath) : Edit Unit := Edit.definePrim path (some nodeGraphType)

/-- Declare an output of a node graph. -/
def createOutput (graph : PrimPath) (name : String) (type : ValueType) : Edit PropertyPath :=
  Output.create graph nodeGraphType name type

end NodeGraph

end LayeredShading
