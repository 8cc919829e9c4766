import LayeredShading.CommandLine.Help
import LayeredShading.Network.Terminal
import LayeredShading.Path.Basic

/-!
# Commands

A command line is a command word, options and further arguments, in which options may stand
anywhere after the command word. Flags for the amount of logging may stand anywhere and mean nothing
else. `Command.parse` reads the options before it looks at the command word, so that a broken option
is what is reported of a command line with two faults.
-/

namespace LayeredShading

namespace CommandLine

/-- Why a command line gives no answer. -/
inductive Failure where
  /-- The last argument is an option that needs a value. -/
  | missingValue (option : String)
  /-- The command needs a further argument. -/
  | missingArgument (name : String)
  /-- A master is asked for without any material. -/
  | missingMaterials
  /-- There is no command of that name. -/
  | unknownCommand (name : String)
  /-- The scene file gives no stage. -/
  | loading (file : String) (cause : Error)
  /-- The scene file could not be written. -/
  | saving (file : String) (cause : Error)
  /-- An argument is no prim path. -/
  | badPath (text : String) (cause : Error)
  /-- An argument names a prim that is no material. -/
  | notMaterial (path : PrimPath)
  /-- An argument names no prim. -/
  | noPrim (path : PrimPath)
  /-- The operation itself failed. -/
  | operation (cause : Error)
  deriving DecidableEq

namespace Failure

/-- The message of an error and, where it wraps a cause from outside, that cause once more. -/
def causeText (cause : Error) : String :=
  match cause with
  | .fileAccess reason | .malformedText reason => cause.message ++ ": " ++ reason
  | _ => cause.message

/-- The text shown to a user. -/
def message : Failure → String
  | missingValue option => "missing value for --" ++ option
  | missingArgument name => "missing " ++ name ++ " argument"
  | missingMaterials => "missing material arguments\nUsage: " ++ masterUsage
  | unknownCommand name => "unknown command: " ++ name
  | loading file cause => "failed to load " ++ file ++ ": " ++ causeText cause
  | saving file cause => "failed to write " ++ file ++ ": " ++ causeText cause
  | badPath text cause => "bad prim path '" ++ text ++ "': " ++ causeText cause
  | notMaterial path => path.text ++ " is not a material"
  | noPrim path => "no prim at " ++ path.text
  | operation cause => causeText cause

end Failure

/-- What the options of a command line say, and the arguments that are left. -/
structure Options where
  terminal : TerminalKind := .surface
  contexts : List String := []
  set : Option String := none
  json : Bool := false
  arguments : List String := []
  deriving DecidableEq

/-- An option that takes the next argument as its value. -/
inductive ValueOption where
  | terminal
  | context
  | set
  deriving DecidableEq

namespace ValueOption

/-- The long name of an option. -/
def name : ValueOption → String
  | terminal => "terminal"
  | context => "context"
  | set => "set"

/-- The option that an argument stands for. -/
def ofArgument? : String → Option ValueOption
  | "-t" | "--terminal" => some terminal
  | "-c" | "--context" => some context
  | "-s" | "--set" => some set
  | _ => none

end ValueOption

namespace Options

/-- Take note of an argument that needs no other. -/
def add (options : Options) (argument : String) : Options :=
  if argument ∈ ["-j", "--json"] then { options with json := true }
  else { options with arguments := options.arguments ++ [argument] }

/-- Take note of the value of an option. -/
def addValue (options : Options) (option : ValueOption) (value : String) :
    Except Failure Options :=
  match option with
  | .terminal => do
    let terminal ← (TerminalKind.parse value).mapError Failure.operation
    return { options with terminal }
  | .context => return { options with contexts := options.contexts ++ [value] }
  | .set => return { options with set := some value }

/-- The options of an argument list on top of those that are known. -/
def parseOnto (options : Options) : List String → Except Failure Options
  | [] => .ok options
  | [argument] =>
    match ValueOption.ofArgument? argument with
    | some option => .error (.missingValue option.name)
    | none => .ok (options.add argument)
  | argument :: next :: rest =>
    match ValueOption.ofArgument? argument with
    | some option => do parseOnto (← options.addValue option next) rest
    | none => parseOnto (options.add argument) (next :: rest)

/-- The options of an argument list. -/
def parse (arguments : List String) : Except Failure Options :=
  parseOnto {} arguments

/-- The argument at a position, under the name by which it is missed. -/
def argument (options : Options) (position : Nat) (name : String) : Except Failure String :=
  match options.arguments[position]? with
  | some argument => .ok argument
  | none => .error (.missingArgument name)

end Options

/-- A question about the stage of a scene file. -/
inductive Query where
  | info
  | tree
  | resolve (material : String)
  | resolveAll
  | outputs (material : String)
  | baseChain (material : String)
  | variants (prim : String)
  deriving DecidableEq

/-- What a command line asks for. -/
inductive Command where
  | help
  | version
  | ask (query : Query) (scene : String) (options : Options)
  | master (scene out master : String) (materials : List String) (set : Option String)
  deriving DecidableEq

namespace Command

/-- Whether an argument only sets the amount of logging. -/
def isLoggingFlag (argument : String) : Bool :=
  argument ∈ ["-v", "--verbose", "-vv", "--trace", "-q", "--quiet"]

/-- The command that asks about a scene file as a whole. -/
def askScene (query : Query) (options : Options) : Except Failure Command := do
  return ask query (← options.argument 0 "scene") options

/-- The command that asks about a prim of a scene file. -/
def askPrim (query : String → Query) (name : String) (options : Options) :
    Except Failure Command := do
  let scene ← options.argument 0 "scene"
  return ask (query (← options.argument 1 name)) scene options

/-- The command of a word, with its arguments among the options. -/
def ofWord (word : String) (options : Options) : Except Failure Command :=
  match word with
  | "info" | "i" => askScene .info options
  | "tree" | "t" => askScene .tree options
  | "resolve" | "r" => askPrim .resolve "material" options
  | "resolve-all" | "ra" => askScene .resolveAll options
  | "outputs" | "o" => askPrim .outputs "material" options
  | "base" | "b" => askPrim .baseChain "material" options
  | "variants" | "vs" => askPrim .variants "prim" options
  | "master" | "m" =>
    match options.arguments with
    | scene :: out :: name :: first :: rest =>
      .ok (master scene out name (first :: rest) options.set)
    | _ => .error .missingMaterials
  | "help" | "h" | "-h" | "--help" => .ok help
  | "version" | "--version" => .ok version
  | _ => .error (.unknownCommand word)

/-- The command of an argument list. -/
def parse (arguments : List String) : Except Failure Command :=
  match arguments.filter fun argument => !isLoggingFlag argument with
  | [] => .ok help
  | word :: rest => do ofWord word (← Options.parse rest)

end Command

end CommandLine

end LayeredShading
