import LayeredShading.Json.Printer
import LayeredShading.Network.BaseMaterial
import LayeredShading.Network.Resolution

/-!
# Reports

What the commands that only look at a stage print, as lines of text, and resolutions as JSON.
-/

namespace LayeredShading

namespace ShaderOutput

/-- A shader output as JSON. -/
def toJson (source : ShaderOutput) : Json :=
  .object [("shader", .string source.shader.text), ("output", .string source.output),
    ("type", .string source.type.name)]

/-- A shader output and its type, or a note that there is none. -/
def typedText : Option ShaderOutput → String
  | some source => source.text ++ " (" ++ source.type.name ++ ")"
  | none => "(none)"

end ShaderOutput

namespace Resolution

/-- A resolution as JSON. -/
def toJson (resolution : Resolution) : Json :=
  .object [("material", .string resolution.material.text),
    ("terminal", .string resolution.terminal.name),
    ("source", (resolution.source.map ShaderOutput.toJson).getD .null)]

end Resolution

namespace CommandLine

/-- How many composed prims have a type. -/
def countOfType (stage : Stage) (typeName : String) : Nat :=
  stage.traverse.countP fun path => stage.isA path typeName

/-- The layers of a stage and the numbers of its prims. -/
def infoLines (scene : String) (stage : Stage) : List String :=
  ["Scene: " ++ scene, "Layers:"] ++
  stage.layerIdentifiers.zipIdx.map (fun (identifier, index) =>
    "  [" ++ toString index ++ "] " ++ identifier) ++
  ["",
    "Prims:      " ++ toString stage.traverse.length,
    "  Materials:  " ++ toString (countOfType stage materialType),
    "  NodeGraphs: " ++ toString (countOfType stage nodeGraphType),
    "  Shaders:    " ++ toString (countOfType stage shaderType)]

/-- The line of a prim in the tree of a stage, indented by its depth. -/
def treeLine (prim : ComposedPrim) : String :=
  let selections := prim.variantSets.map fun set => set.name ++ "=" ++ set.selection.getD ""
  String.ofList (List.replicate (2 * prim.path.depth) ' ') ++ prim.name ++
    " [" ++ prim.typeName.getD "-" ++ "]" ++
    if selections.isEmpty then "" else " \x7b" ++ ", ".intercalate selections ++ "\x7d"

/-- The prims of a stage with their types and selections. -/
def treeLines (stage : Stage) : List String :=
  "/" :: (stage.traverse.filterMap stage.prim?).map treeLine

/-- What a terminal of a material resolves to. -/
def resolveLines (stage : Stage) (material : PrimPath) (kind : TerminalKind)
    (contexts : List String) : List String :=
  [material.text ++ " " ++ kind.name ++ " -> " ++
    ShaderOutput.typedText (Material.resolve stage material kind contexts)]

/-- What a terminal of a material resolves to, as JSON. -/
def resolveJson (stage : Stage) (material : PrimPath) (kind : TerminalKind)
    (contexts : List String) : Json :=
  .object [("contexts", .ofStrings contexts), ("material", .string material.text),
    ("source", optionalSource (Material.resolve stage material kind contexts)),
    ("terminal", .string kind.name)]
where
  /-- A shader output as JSON, with its fields by name. -/
  optionalSource : Option ShaderOutput → Json
    | some source => .object [("output", .string source.output),
        ("shader", .string source.shader.text), ("type", .string source.type.name)]
    | none => .null

/-- What a terminal of every material resolves to. -/
def resolveAllLines (resolutions : List Resolution) : List String :=
  resolutions.map (fun resolution =>
    resolution.material.text ++ " -> " ++ ShaderOutput.typedText resolution.source) ++
  ["", "Resolved " ++ toString (resolutions.countP fun resolution => resolution.source.isSome) ++
    " of " ++ toString resolutions.length ++ " materials"]

/-- What a terminal of every material resolves to, as JSON. -/
def resolveAllJson (resolutions : List Resolution) : Json :=
  .array (resolutions.map Resolution.toJson)

/-- A text filled up with blanks to a number of characters. -/
def padded (width : Nat) (text : String) : String :=
  text ++ String.ofList (List.replicate (width - text.length) ' ')

/-- The line of a terminal output of a material. -/
def outputLine (stage : Stage) (path : PropertyPath) : String :=
  let context := (Output.context? path).getD universalContext
  let sources := Output.sources stage path
  "    " ++ padded 14 (if context = universalContext then "<universal>" else context) ++
    if sources.isEmpty then " (unconnected)"
    else " <- " ++ ", ".intercalate (sources.map PropertyPath.text)

/-- The terminal outputs of a material with their connections. -/
def outputsLines (stage : Stage) (material : PrimPath) : List String :=
  ("Material: " ++ material.text) :: TerminalKind.all.flatMap fun kind =>
    match Material.terminalOutputs stage material kind with
    | [] => []
    | outputs => ("  " ++ kind.name ++ ":") :: outputs.map (outputLine stage)

/-- The base materials of a material. -/
def baseLines (stage : Stage) (material : PrimPath) : List String :=
  match Material.baseChain stage material with
  | [] => [material.text ++ " has no base material"]
  | chain => [" -> ".intercalate ((material :: chain).map PrimPath.text)]

/-- The variant sets of a prim, where a star marks the selected variant. -/
def variantsLines (prim : ComposedPrim) : List String :=
  if prim.variantSets.isEmpty then [prim.path.text ++ " has no variant sets"]
  else prim.variantSets.flatMap fun set =>
    (set.name ++ ":") :: set.variants.map fun variant =>
      (if set.selection = some variant then "  * " else "    ") ++ variant

end CommandLine

end LayeredShading
