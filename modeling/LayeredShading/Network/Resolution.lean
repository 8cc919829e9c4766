import LayeredShading.Network.Shader

/-!
# Resolution

A terminal of a material resolves, for render contexts in order of preference, to the shader output
at the end of the connections that start at the material's output for the first context that leads
to one. Outputs of node graphs and materials on the way pass on what they are connected to. A
connection that leads nowhere, to something that is no output or back to where the walk has been
is as good as none.
-/

namespace LayeredShading

/-- A shader output that a terminal resolves to. The name of the output is without its
namespace. -/
structure ShaderOutput where
  shader : PrimPath
  output : String
  type : ValueType
  deriving DecidableEq, Repr

namespace ShaderOutput

/-- The path of the output. -/
def path? (source : ShaderOutput) : Option PropertyPath :=
  (source.shader.property (outputsNamespace ++ source.output)).toOption

/-- The path of the output as text. -/
def text (source : ShaderOutput) : String :=
  source.shader.text ++ "." ++ outputsNamespace ++ source.output

end ShaderOutput

/-- Where the connection of an output leads. -/
inductive Lead where
  /-- To a shader output. -/
  | shader (source : ShaderOutput)
  /-- To an output that passes on its own connection. -/
  | through (path : PropertyPath)
  deriving DecidableEq, Repr

namespace Stage

/-- The declared output that the connection of an output leads to. -/
def lead? (stage : Stage) (path : PropertyPath) : Option Lead := do
  let source ← (← stage.attribute? path).lastConnection?
  let name ← Text.dropLead? outputsNamespace source.name
  let prim ← stage.prim? source.prim
  let composed ← prim.attribute? source.name
  if prim.isA shaderType then some (.shader ⟨source.prim, name, composed.type⟩)
  else if prim.isA nodeGraphType || prim.isA materialType then some (.through source)
  else none

/-- The shader output that connections lead to from an output, when the outputs that were `visited`
are not to be passed again and at most a number of connections are followed. -/
def followWithin (stage : Stage) : Nat → List PropertyPath → PropertyPath → Option ShaderOutput
  | 0, _, _ => none
  | steps + 1, visited, path =>
    if path ∈ visited then none
    else match stage.lead? path with
      | some (.shader source) => some source
      | some (.through next) => stage.followWithin steps (path :: visited) next
      | none => none

/-- The number of segments in the paths of all specs. -/
def segmentCount (layers : List Layer) : Nat :=
  (layers.flatMap fun layer => layer.specs.keys.flatMap PrimPath.segments).length

/-- The number of attributes in all specs. -/
def attributeCount (layers : List Layer) : Nat :=
  (layers.flatMap fun layer => layer.specs.entries.flatMap fun entry =>
    entry.2.attributes.keys).length

/-- More than the number of attributes that can compose: each stands on a prim whose path takes its
names from the paths of specs and is no deeper than `depthBound`. -/
def attributeBound (layers : List Layer) : Nat :=
  attributeCount layers * Nat.pow (segmentCount layers + 1) (depthBound layers) + 1

/-- The shader output that connections lead to from an output. -/
def follow (stage : Stage) (path : PropertyPath) : Option ShaderOutput :=
  stage.followWithin (attributeBound stage.layers) [] path

end Stage

namespace Material

/-- The contexts that are tried for requested ones: the universal context comes last unless it is
requested. -/
def contextsTried (contexts : List String) : List String :=
  if universalContext ∈ contexts then contexts else contexts ++ [universalContext]

/-- The shader output that a terminal of a material resolves to for render contexts, the preferred
one first. -/
def resolve (stage : Stage) (material : PrimPath) (kind : TerminalKind)
    (contexts : List String) : Option ShaderOutput :=
  (contextsTried contexts).findSome? fun context => do
    stage.follow (← terminalOutput? stage material kind context)

end Material

/-- What a terminal of a material resolves to. -/
structure Resolution where
  material : PrimPath
  terminal : TerminalKind
  source : Option ShaderOutput
  deriving DecidableEq, Repr

namespace Resolution

/-- What a terminal of every material of a stage resolves to, in the order of the materials'
paths. -/
def all (stage : Stage) (kind : TerminalKind) (contexts : List String) : List Resolution :=
  ((Material.all stage).map fun material =>
    ⟨material, kind, Material.resolve stage material kind contexts⟩).mergeSort
    fun first second => (compare first.material second.material).isLE

end Resolution

end LayeredShading
