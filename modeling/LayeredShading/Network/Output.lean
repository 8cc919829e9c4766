import LayeredShading.Network.Attribute
import LayeredShading.Network.Terminal

/-!
# Outputs

An output is an attribute in the output namespace of a material, node graph or shader. It is
connected to the outputs that its value comes from; of several connections the last one counts.
-/

namespace LayeredShading

namespace Output

/-- The name of an output without its namespace. -/
def baseName (path : PropertyPath) : String :=
  (Text.dropLead? outputsNamespace path.name).getD path.name

/-- The terminal that an output of a material is for. -/
def terminal? (path : PropertyPath) : Option TerminalKind :=
  (TerminalKind.splitOutputName? path.name).map (·.1)

/-- The render context that an output of a material is for. -/
def context? (path : PropertyPath) : Option String :=
  (TerminalKind.splitOutputName? path.name).map (·.2)

/-- The connections of an output in authoring order. -/
def sources (stage : Stage) (path : PropertyPath) : List PropertyPath :=
  ((stage.attribute? path).map (·.connections)).getD []

/-- The connection of an output that counts. -/
def source? (stage : Stage) (path : PropertyPath) : Option PropertyPath :=
  (sources stage path).getLast?

/-- Refuse to connect an output to itself. -/
def requireOther (path source : PropertyPath) : Edit Unit :=
  if source = path then throw (.invalidArgument (path.text ++ " cannot connect to itself"))
  else pure ()

/-- Connect an output to one source, in place of what the edit target says so far. -/
def connect (path source : PropertyPath) : Edit Unit := do
  requireOther path source
  Edit.setConnections path [source]

/-- Connect an output to a further source, which counts from then on. -/
def addSource (path source : PropertyPath) : Edit Unit := do
  requireOther path source
  Edit.addConnection path source

/-- Leave an output without connections, also those of weaker opinions. -/
def disconnect (path : PropertyPath) : Edit Unit := Edit.setConnections path []

/-- Remove what the edit target says about the connections of an output. -/
def clearSources (path : PropertyPath) : Edit Unit := Edit.clearConnections path

/-- The declared outputs of a prim, by name. -/
def all (stage : Stage) (prim : PrimPath) : List PropertyPath :=
  match stage.prim? prim with
  | some composed => (composed.attributesUnder outputsNamespace).map (·.path)
  | none => []

/-- The output of a prim that an attribute name stands for, if it is declared. -/
def declared? (stage : Stage) (prim : PrimPath) (name : String) : Option PropertyPath := do
  let path ← (prim.property name).toOption
  if Attribute.isDeclared stage path then some path else none

/-- The declared output of a prim with a name, the namespace not included. -/
def find? (stage : Stage) (prim : PrimPath) (name : String) : Option PropertyPath :=
  declared? stage prim (outputsNamespace ++ name)

/-- Declare an output of a prim with a schema type. -/
def create (prim : PrimPath) (typeName name : String) (type : ValueType) : Edit PropertyPath :=
  Attribute.create prim typeName (outputsNamespace ++ name) type none false

end Output

end LayeredShading
