import LayeredShading.Composition.Prim
import LayeredShading.EditTarget

/-!
# Stages

A stage is a stack of layers, the strongest first, together with the target that authoring goes to.
Reading composes prims on demand. `traverse` lists every prim of the composed scene, each before the
prims below it; it needs no more steps down than a composed prim can be deep.
-/

namespace LayeredShading

/-- A stack of layers and the target of authoring. -/
structure Stage where
  layers : List Layer
  target : EditTarget
  deriving DecidableEq, Inhabited

namespace Stage

/-- The identifier of the layer that a stage starts with. -/
def rootLayerIdentifier : String := "anon:root"

/-- A stage over layers, the strongest first. A stage without layers gets a blank one. -/
def ofLayers (layers : List Layer) : Stage where
  layers := if layers.isEmpty then [.blank rootLayerIdentifier] else layers
  target := .ofLayer 0

/-- A stage with one blank layer. -/
def blank : Stage := ofLayers []

/-- The identifiers of the layers, the strongest first. -/
def layerIdentifiers (stage : Stage) : List String := stage.layers.map (·.identifier)

/-- The index of the strongest layer with an identifier. -/
def layerIndex? (stage : Stage) (identifier : String) : Option Nat :=
  stage.layers.findIdx? fun layer => layer.identifier == identifier

/-- The spec at a path in a layer. -/
def spec? (stage : Stage) (layer : Nat) (path : PrimPath) : Option PrimSpec := do
  (← stage.layers[layer]?).spec? path

/-- The composed prim at a path. -/
def prim? (stage : Stage) (path : PrimPath) : Option ComposedPrim := compose stage.layers path

/-- Whether a prim composes at a path. -/
def hasPrim (stage : Stage) (path : PrimPath) : Bool := (stage.prim? path).isSome

/-- The composed attribute at a path. -/
def attribute? (stage : Stage) (path : PropertyPath) : Option ComposedAttribute := do
  (← stage.prim? path.prim).attribute? path.name

/-- The names of the prims directly below a prim or the root. -/
def children (stage : Stage) (path : PrimPath) : List String :=
  if path.isRoot then rootChildren stage.layers
  else ((stage.prim? path).map (·.children)).getD []

/-- The depth of the deepest spec of the stack. -/
def deepestSpec (layers : List Layer) : Nat :=
  (layers.flatMap fun layer => layer.specs.keys.map PrimPath.depth).foldl max 0

/-- How deep a composed prim can be: each arc on the way to an opinion shortens a path by less than
the depth of the deepest spec. -/
def depthBound (layers : List Layer) : Nat := maxArcDepth * deepestSpec layers + 1

/-- The prims below a path, down to a number of levels, each before the prims below it. -/
def traverseBelow (stage : Stage) : Nat → PrimPath → List PrimPath
  | 0, _ => []
  | levels + 1, path =>
    ((stage.children path).filter isPrimName).flatMap fun name =>
      path.push name :: stage.traverseBelow levels (path.push name)

/-- Every prim of the composed scene, each before the prims below it. -/
def traverse (stage : Stage) : List PrimPath :=
  stage.traverseBelow (depthBound stage.layers) .root

end Stage

end LayeredShading
