import LayeredShading.Network.Material
import LayeredShading.Network.VariantSet

/-!
# Edit scopes

An edit scope redirects authoring on a prim and below it into one of the prim's variants, and gives
the edit target back that was there before. It does so once: releasing it gives back the scope as a
released one, which can be released again without effect, and any other use of which fails.
-/

namespace LayeredShading

/-- Whether a scope still redirects authoring. -/
inductive ScopeState where
  | active
  | released
  deriving DecidableEq, Repr, Inhabited

/-- A redirection of authoring into a variant of a prim, with the target that it set and the one
that was there before. -/
structure EditScope where
  prim : PrimPath
  choice : VariantChoice
  target : EditTarget
  previous : EditTarget
  state : ScopeState
  deriving DecidableEq, Repr

namespace EditScope

/-- Redirect authoring on a prim and below it into a declared variant, in a layer or in the one
that authoring goes to already. -/
def enter (prim : PrimPath) (choice : VariantChoice) (layer : Option Nat) : Edit EditScope := do
  Edit.requireVariant prim choice
  let previous := (← get).target
  let target := (previous.withLayer (layer.getD previous.layer)).redirect prim choice
  Edit.setTarget target
  return ⟨prim, choice, target, previous, .active⟩

/-- The variant that the scope redirects into, as text. -/
def text (scope : EditScope) : String := scope.prim.text ++ scope.choice.text

/-- Whether the scope still redirects authoring. -/
def isActive (scope : EditScope) : Bool := scope.state == .active

/-- Refuse a released scope. -/
def requireActive (scope : EditScope) : Except Error Unit :=
  if scope.isActive then .ok () else .error (.staleEditScope scope.text)

/-- The target that the scope set. -/
def activeTarget (scope : EditScope) : Except Error EditTarget := do
  scope.requireActive
  return scope.target

/-- The prim of the scope, which has to be a material. -/
def material (scope : EditScope) (stage : Stage) : Except Error PrimPath := do
  scope.requireActive
  if Material.isMaterial stage scope.prim then return scope.prim
  else throw (.invalidArgument (scope.prim.text ++ " is not a material"))

/-- Run an edit within the scope. -/
def edit {α : Type} (scope : EditScope) (program : Edit α) : Edit α := do
  Edit.check scope.requireActive
  program

/-- Give back the target that was there before, unless that has been done. The scope is released
afterwards whether or not the target could be set, which the result beside it says. -/
def release (scope : EditScope) : Edit (EditScope × Except Error Unit) := do
  if scope.isActive then
    let outcome ← observing (Edit.setTarget scope.previous)
    return ({ scope with state := .released }, outcome)
  else return (scope, .ok ())

/-- Let go of a scope, which releases it and goes on if the target cannot be set. -/
def drop (scope : EditScope) : Edit Unit := do
  let _ ← scope.release

/-- Release a scope and let go of it, and fail if the target cannot be set. -/
def close (scope : EditScope) : Edit Unit := do
  let (scope, outcome) ← scope.release
  scope.drop
  Edit.check outcome

/-- Run an edit within a scope for it and release the scope whether or not the edit fails. -/
def during {α : Type} (prim : PrimPath) (choice : VariantChoice) (layer : Option Nat)
    (program : Edit α) : Edit α := do
  let scope ← enter prim choice layer
  let result ← tryCatch (scope.edit program) fun error => do
    scope.drop
    throw error
  scope.close
  return result

end EditScope

namespace Material

/-- Redirect authoring on a material into the selected variant of a set. -/
def enterSelected (material : PrimPath) (set : String) (layer : Option Nat) : Edit EditScope := do
  match VariantSet.find? (← get) material set with
  | none => throw (.unknownVariantSet material.text set)
  | some composed =>
    match composed.selection with
    | none =>
      throw (.invalidArgument
        ("variant set " ++ set ++ " on " ++ material.text ++ " has no selection"))
    | some variant => EditScope.enter material ⟨set, variant⟩ layer

/-- Add and select a variant of a material and redirect authoring into it. -/
def enterVariant (material : PrimPath) (variant : String) (layer : Option Nat) :
    Edit EditScope := do
  let choice : VariantChoice := ⟨variantSet, variant⟩
  Edit.addVariant material choice
  VariantSet.select material choice
  EditScope.enter material choice layer

end Material

end LayeredShading
