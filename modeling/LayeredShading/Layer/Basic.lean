import LayeredShading.Layer.Spec

/-!
# Layers

A layer keeps specs by their paths. What it says about a prim within a variant stands at a path
that carries the choice of the variant.
-/

namespace LayeredShading

/-- A named collection of specs. -/
structure Layer where
  identifier : String
  specs : SortedMap PrimPath PrimSpec
  deriving DecidableEq

namespace Layer

/-- A layer without specs. -/
def blank (identifier : String) : Layer := ⟨identifier, .empty⟩

instance : Inhabited Layer := ⟨blank ""⟩

/-- The spec at a path. -/
def spec? (layer : Layer) (path : PrimPath) : Option PrimSpec := layer.specs.get? path

/-- Put a spec at a path in place of the one that is there. -/
def replaceSpec (layer : Layer) (path : PrimPath) (spec : PrimSpec) : Layer :=
  { layer with specs := layer.specs.insert path spec }

/-- Change the spec at a path. A blank one is made if there is none, and a spec that is asked to
define its prim does so from then on. -/
def changeSpec (layer : Layer) (path : PrimPath) (specifier : Specifier)
    (change : PrimSpec → PrimSpec) : Layer :=
  let joined (spec : PrimSpec) : PrimSpec :=
    { spec with specifier := spec.specifier.join specifier }
  { layer with specs := layer.specs.update path (.blank specifier) (change ∘ joined) }

/-- Change the spec at a path if there is one. -/
def changeOwnSpec (layer : Layer) (path : PrimPath) (change : PrimSpec → PrimSpec) : Layer :=
  { layer with specs := layer.specs.modify path change }

/-- The names of the prims directly below a path that have a spec of their own. -/
def childNames (layer : Layer) (site : PrimPath) : List String :=
  (layer.specs.keys.filter fun path => !path.endsInChoice && path.parent? == some site).filterMap
    PrimPath.name?

end Layer

end LayeredShading
