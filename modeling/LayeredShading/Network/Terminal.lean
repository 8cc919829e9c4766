import LayeredShading.Error
import LayeredShading.Text.Split

/-!
# Terminals

A material exposes one output per terminal and render context. The name of the attribute carries
both: `outputs:surface` in the universal context, whose name is empty, and `outputs:ri:surface` in
context `ri`.
-/

namespace LayeredShading

/-- The namespace of output attributes. -/
def outputsNamespace : String := "outputs:"

/-- The namespace of input attributes. -/
def inputsNamespace : String := "inputs:"

/-- The render context that is used where no requested one has an output. -/
def universalContext : String := ""

/-- The part that a material plays in rendering. -/
inductive TerminalKind where
  | surface
  | displacement
  | volume
  deriving DecidableEq, Repr, Inhabited

namespace TerminalKind

/-- Every kind. -/
def all : List TerminalKind := [surface, displacement, volume]

/-- The name of a kind. -/
def name : TerminalKind → String
  | surface => "surface"
  | displacement => "displacement"
  | volume => "volume"

/-- The kind of a name. -/
def ofName? (name : String) : Option TerminalKind :=
  all.find? fun kind => kind.name == name

/-- The kind of a name, which has to be one. -/
def parse (name : String) : Except Error TerminalKind :=
  match ofName? name with
  | some kind => .ok kind
  | none => .error (.invalidArgument ("unknown terminal '" ++ name ++ "'"))

/-- The name of the output attribute for a render context. -/
def outputName (kind : TerminalKind) (context : String) : String :=
  if context = universalContext then outputsNamespace ++ kind.name
  else outputsNamespace ++ context ++ ":" ++ kind.name

/-- The kind and render context of an output attribute's name. -/
def splitOutputName? (name : String) : Option (TerminalKind × String) := do
  let rest ← Text.dropLead? outputsNamespace name
  match Text.splitAtLast? ':' rest with
  | some (context, terminal) =>
    if context.isEmpty then none else (ofName? terminal).map (·, context)
  | none => (ofName? rest).map (·, universalContext)

end TerminalKind

end LayeredShading
