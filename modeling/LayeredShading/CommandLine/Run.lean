import LayeredShading.CommandLine.Command
import LayeredShading.CommandLine.Report
import LayeredShading.Network.MasterVariant
import LayeredShading.SceneFile.Decoding
import LayeredShading.SceneFile.Encoding

/-!
# Running commands

A command is run over any way to read and write files. It prints its report only if all went well;
a failure gives an error line and exit code 1. The command that makes a master writes its file last,
so that nothing is written if anything fails before.
-/

namespace LayeredShading

namespace CommandLine

/-- How the text of a file is read and written. -/
structure Files (m : Type → Type) where
  read : String → m (Except Error String)
  write : String → String → m (Except Error Unit)

/-- What a run of the program shows: what it prints and why it failed, if it did. -/
structure Outcome where
  output : String
  failure : Option Failure
  deriving DecidableEq

namespace Outcome

/-- Lines of text, each with its line end. -/
def ofLines (lines : List String) : Outcome :=
  ⟨String.join (lines.map fun line => line ++ "\n"), none⟩

/-- A failed run. The help is printed if the command is not known. -/
def ofFailure (failure : Failure) : Outcome :=
  match failure with
  | .unknownCommand _ => { ofLines helpLines with failure }
  | _ => { ofLines [] with failure }

/-- The exit code. -/
def code (outcome : Outcome) : Nat :=
  if outcome.failure.isSome then 1 else 0

/-- What is printed as an error. -/
def errorOutput (outcome : Outcome) : String :=
  match outcome.failure with
  | some failure => "Error: " ++ failure.message ++ "\n"
  | none => ""

end Outcome

/-- The prim path that an argument spells. -/
def primPath (argument : String) : Except Failure PrimPath :=
  (PrimPath.parse argument).mapError fun cause => .badPath argument cause

/-- The material that an argument names. -/
def materialPath (stage : Stage) (argument : String) : Except Failure PrimPath := do
  let path ← primPath argument
  if Material.isMaterial stage path then return path
  throw (.notMaterial path)

/-- The stage after an edit, which has to succeed. -/
def edited (stage : Stage) (edit : Edit Unit) : Except Failure Stage :=
  match edit.run stage with
  | .ok _ after => .ok after
  | .error cause _ => .error (.operation cause)

/-- The stage on which a prim is a master of materials that arguments name. The prim is defined if
there is none. -/
def masterStage (stage : Stage) (master : PrimPath) (materials : List String)
    (set : Option String) : Except Failure Stage := do
  let stage ← if stage.hasPrim master then pure stage
    else edited stage (Edit.definePrim master none)
  let materials ← materials.mapM (materialPath stage)
  edited stage (MasterVariant.create master materials set)

/-- The answer to a query about the stage of a scene file. -/
def answer (stage : Stage) (scene : String) (options : Options) :
    Query → Except Failure (List String)
  | .info => return infoLines scene stage
  | .tree => return treeLines stage
  | .resolve argument => do
    let material ← materialPath stage argument
    if options.json then
      return [(resolveJson stage material options.terminal options.contexts).pretty]
    return resolveLines stage material options.terminal options.contexts
  | .resolveAll =>
    let resolutions := Resolution.all stage options.terminal options.contexts
    return if options.json then [(resolveAllJson resolutions).pretty]
      else resolveAllLines resolutions
  | .outputs argument => return outputsLines stage (← materialPath stage argument)
  | .baseChain argument => return baseLines stage (← materialPath stage argument)
  | .variants argument => do
    let path ← primPath argument
    match stage.prim? path with
    | some prim => return variantsLines prim
    | none => throw (.noPrim path)

section

variable {m : Type → Type} [Monad m] (files : Files m)

/-- A result as a step of a run. -/
def liftExcept {α : Type} (result : Except Failure α) : ExceptT Failure m α :=
  ExceptT.mk (pure result)

/-- The stage of a scene file. -/
def load (file : String) : ExceptT Failure m Stage := do
  match (← files.read file).bind Stage.parse with
  | .ok stage => return stage
  | .error cause => throw (.loading file cause)

/-- Write the scene file of a stage. -/
def save (file : String) (stage : Stage) : ExceptT Failure m Unit := do
  match ← files.write file stage.describe.text with
  | .ok () => return
  | .error cause => throw (.saving file cause)

/-- Make a master in the stage of a scene file and write the result to another file. -/
def makeMaster (scene out master : String) (materials : List String) (set : Option String) :
    ExceptT Failure m (List String) := do
  let stage ← load files scene
  let path ← liftExcept (primPath master)
  save files out (← liftExcept (masterStage stage path materials set))
  return ["Wrote " ++ toString materials.length ++ " variants on " ++ path.text ++ " to " ++ out]

/-- The lines that a command prints. -/
def Command.run : Command → ExceptT Failure m (List String)
  | help => return helpLines
  | version => return [versionLine]
  | ask query scene options => do liftExcept (answer (← load files scene) scene options query)
  | master scene out name materials set => makeMaster files scene out name materials set

/-- Run the program on an argument list. -/
def run (arguments : List String) : m Outcome := do
  match Command.parse arguments with
  | .error failure => return .ofFailure failure
  | .ok command =>
    match ← (command.run files).run with
    | .ok lines => return .ofLines lines
    | .error failure => return .ofFailure failure

end

end CommandLine

end LayeredShading
