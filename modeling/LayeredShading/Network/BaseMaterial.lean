import LayeredShading.Network.Material
import LayeredShading.Reachability

/-!
# Base materials

A material takes what it leaves open from its base material, which is the first prim that it
specializes if that is a material. Composition makes what is inherited visible; a base material is
refused if it would lead back to the material.
-/

namespace LayeredShading

namespace Material

/-- The base material of a material. -/
def base? (stage : Stage) (material : PrimPath) : Option PrimPath := do
  let base ← (← stage.prim? material).specializes.head?
  if isMaterial stage base then some base else none

/-- The number of prims that specs specialize, over all layers. -/
def specializedCount (layers : List Layer) : Nat :=
  (layers.flatMap fun layer => layer.specs.entries.flatMap fun entry =>
    entry.2.specializes.getD []).length

/-- The base materials from a material on, of which some are `found` already and at most a number
are to follow. The chain ends before it comes to a material for the second time. -/
def baseChainWithin (stage : Stage) (material : PrimPath) :
    Nat → List PrimPath → PrimPath → List PrimPath
  | 0, found, _ => found
  | count + 1, found, current =>
    match base? stage current with
    | none => found
    | some base =>
      if base = material ∨ base ∈ found then found
      else baseChainWithin stage material count (found ++ [base]) base

/-- The base material of a material, its base material and so on. -/
def baseChain (stage : Stage) (material : PrimPath) : List PrimPath :=
  baseChainWithin stage material (specializedCount stage.layers) [] material

/-- The prims that a prim specializes, directly or indirectly, and the prim itself. -/
def lineage (stage : Stage) (prim : PrimPath) : List PrimPath :=
  reachable (fun prim => ((stage.prim? prim).map (·.specializes)).getD [])
    (specializedCount stage.layers + 1) [prim]

/-- Whether a base leads to the material itself or to a prim above or below it. -/
def wouldCycle (stage : Stage) (material base : PrimPath) : Bool :=
  (lineage stage base).any fun prim => prim.overlaps material

/-- Make a prim the base of a material. -/
def setBase (material base : PrimPath) : Edit Unit := do
  if wouldCycle (← get) material base then
    throw (.baseMaterialCycle material.text base.text)
  Edit.setSpecializes material [base]

/-- Leave a material without a base, also those of weaker opinions. -/
def clearBase (material : PrimPath) : Edit Unit := do
  let specialized := (((← get).prim? material).map (·.specializes)).getD []
  if !specialized.isEmpty then Edit.setSpecializes material []

end Material

end LayeredShading
