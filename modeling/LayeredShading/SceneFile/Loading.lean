import LayeredShading.Reachability
import LayeredShading.SceneFile.Description

/-!
# Loading scene descriptions

A stage is made from a description in three steps. First every layer is made: the root has no
spec, and attributes need names, types and defaults that fit. Of two prims with the same path and
of two attributes with the same name the later one counts. Then no prim may lead back, along the
prims that specs specialize, to itself or to a prim above or below it. Last, every selection has to
name a variant that the composed prim declares.
-/

namespace LayeredShading

namespace AttributeDescription

/-- The spec that a description of an attribute of a prim stands for. -/
def toSpec (prim : PrimPath) (description : AttributeDescription) :
    Except Error AttributeSpec := do
  let path ← prim.property description.name
  match ValueType.ofName? description.typeName with
  | none =>
    throw (.invalidValue (path.text ++ ": unknown type " ++ description.typeName))
  | some type =>
    let default ← description.default.mapM (Value.ofJson type)
    return ⟨type, default, description.connections, description.custom⟩

end AttributeDescription

namespace PrimDescription

/-- The spec that a description of a prim stands for. -/
def toSpec (description : PrimDescription) : Except Error PrimSpec := do
  let attributes ← description.attributes.mapM fun part =>
    return (part.name, ← part.toSpec description.path)
  return {
    specifier := description.specifier
    typeName := description.typeName
    metadata := .ofList description.metadata.entries
    attributes := .ofList attributes
    references := description.references
    specializes := description.specializes
    variantSets := description.variantSets
    variantSelection := description.variantSelection }

end PrimDescription

namespace LayerDescription

/-- The layer that a description stands for. -/
def toLayer (description : LayerDescription) : Except Error Layer := do
  let specs ← description.prims.mapM fun (part : PrimDescription) => do
    if part.path.isRoot then throw (Error.invalidPath part.path.text)
    return (part.path, ← part.toSpec)
  return ⟨description.identifier, .ofList specs⟩

end LayerDescription

namespace Stage

/-- The prims that the specs of each prim specialize, over all layers and variants. -/
def specializesArcs (layers : List Layer) : SortedMap PrimPath (List PrimPath) :=
  (layers.flatMap fun layer => layer.specs.entries).foldl
    (fun arcs entry =>
      match entry.2.specializes with
      | none => arcs
      | some sources => arcs.update entry.1.stripChoices [] (· ++ sources))
    .empty

/-- The prims that are specialized, directly or indirectly, starting from some of them, in the order
in which a search comes to them. -/
def specializedFrom (arcs : SortedMap PrimPath (List PrimPath)) (sources : List PrimPath) :
    List PrimPath :=
  reachable (fun prim => (arcs.get? prim).getD []) (arcs.entries.flatMap (·.2)).length sources

/-- Refuse prims that specialize themselves or a prim above or below them, directly or
indirectly. Of several such bases the one that the search comes to first is named. -/
def checkSpecializes (layers : List Layer) : Except Error Unit :=
  let arcs := specializesArcs layers
  arcs.entries.forM fun (owner, sources) =>
    match (specializedFrom arcs sources).find? fun prim => prim.overlaps owner with
    | some prim => .error (.baseMaterialCycle owner.text prim.text)
    | none => .ok ()

/-- Refuse a selection whose variant the composed prim does not declare. -/
def checkSelection (prim : PrimPath) (composed : Option ComposedPrim) (choice : VariantChoice) :
    Except Error Unit :=
  match composed.bind fun composed => composed.variantSet? choice.set with
  | none => .error (.unknownVariantSet prim.text choice.set)
  | some set =>
    if set.hasVariant choice.variant then .ok ()
    else .error (.unknownVariant prim.text choice.set choice.variant)

/-- Refuse selections whose variant the composed prim does not declare. -/
def checkSelections (layers : List Layer) : Except Error Unit :=
  (layers.flatMap fun layer => layer.specs.entries).forM fun (path, spec) =>
    let prim := path.stripChoices
    spec.variantSelection.entries.forM fun (set, variant) =>
      checkSelection prim (compose layers prim) ⟨set, variant⟩

/-- The stage that a description stands for. -/
def ofDescription (description : SceneDescription) : Except Error Stage := do
  let layers ← description.layers.mapM LayerDescription.toLayer
  checkSpecializes layers
  checkSelections layers
  return ofLayers layers

end Stage

end LayeredShading
