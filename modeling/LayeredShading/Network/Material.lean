import LayeredShading.Network.Output

/-!
# Materials

A material is a prim that holds shading networks and exposes one output per terminal and render
context.
-/

namespace LayeredShading

namespace Stage

/-- Whether a prim composes as a type. -/
def isA (stage : Stage) (path : PrimPath) (typeName : String) : Bool :=
  (stage.prim? path).any fun prim => prim.isA typeName

end Stage

namespace Material

/-- The variant set that holds the variants of a material unless another is named. -/
def variantSet : String := "materialVariant"

/-- Whether a prim composes as a material. -/
def isMaterial (stage : Stage) (path : PrimPath) : Bool := stage.isA path materialType

/-- Define a material. -/
def define (path : PrimPath) : Edit Unit := Edit.definePrim path (some materialType)

/-- The materials of a stage, each before those below it. -/
def all (stage : Stage) : List PrimPath := stage.traverse.filter (isMaterial stage)

/-- The name of a material's prim. -/
def name (material : PrimPath) : String := material.name?.getD ""

/-- The declared output of a material for a terminal and a render context. -/
def terminalOutput? (stage : Stage) (material : PrimPath) (kind : TerminalKind)
    (context : String) : Option PropertyPath :=
  Output.declared? stage material (kind.outputName context)

/-- The declared outputs of a material for a terminal, over all render contexts. -/
def terminalOutputs (stage : Stage) (material : PrimPath) (kind : TerminalKind) :
    List PropertyPath :=
  (Output.all stage material).filter fun path => Output.terminal? path == some kind

/-- Declare the output of a material for a terminal in the universal context, and set its default
if one is given. A sparse declaration leaves out what the schema says anyway. -/
def createTerminal (material : PrimPath) (kind : TerminalKind) (default : Option Value)
    (sparse : Bool) : Edit PropertyPath :=
  Attribute.create material materialType (kind.outputName universalContext) .token default sparse

/-- Declare the output of a material for a terminal and a render context. -/
def createTerminalOutput (material : PrimPath) (kind : TerminalKind) (context : String) :
    Edit PropertyPath :=
  Attribute.create material materialType (kind.outputName context) .token none false

end Material

end LayeredShading
