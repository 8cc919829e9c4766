import LayeredShading.Stage.Authoring

/-!
# Variant sets

A variant set of a prim can be spoken of before it is declared; declaring a variant declares it.
-/

namespace LayeredShading

namespace VariantSet

/-- The composed variant set of a prim. -/
def find? (stage : Stage) (prim : PrimPath) (set : String) : Option ComposedVariantSet := do
  (← stage.prim? prim).variantSet? set

/-- The variants in the order of their declaration. -/
def variants (stage : Stage) (prim : PrimPath) (set : String) : List String :=
  ((find? stage prim set).map (·.variants)).getD []

/-- Whether the set declares a variant. -/
def hasVariant (stage : Stage) (prim : PrimPath) (choice : VariantChoice) : Bool :=
  (find? stage prim choice.set).any fun composed => composed.hasVariant choice.variant

/-- The selected variant. -/
def selection? (stage : Stage) (prim : PrimPath) (set : String) : Option String := do
  (← find? stage prim set).selection

/-- Select a declared variant of a declared set. -/
def select (prim : PrimPath) (choice : VariantChoice) : Edit Unit := do
  if (find? (← get) prim choice.set).isNone then
    throw (.unknownVariantSet prim.text choice.set)
  Edit.selectVariant prim choice

end VariantSet

end LayeredShading
