import LayeredShading.Composition.NamespaceMap
import LayeredShading.Layer.Basic
import LayeredShading.Path.Ancestry

/-!
# Opinions

The opinions on a prim, strongest first, are the specs at the prim itself, layer by layer; the
specs in the variants selected on the prim and on the prims above it; then what the arcs lead to:
references declared on the prim and on the prims above it, the nearest first, and specializes
declared likewise. The source of an arc has opinions in the same way, so gathering them is
recursive. It ends because a path that is being gathered is not gathered again and because at most
`maxArcDepth` arcs are followed one after the other.
-/

namespace LayeredShading

/-- One spec that contributes to a prim: the layer and the path it stands at, and the map that
moves the names in it to the prim. -/
structure Opinion where
  layer : Layer
  site : PrimPath
  spec : PrimSpec
  map : NamespaceMap
  deriving DecidableEq

/-- The longest chain of arcs that is followed for one prim. -/
def maxArcDepth : Nat := 64

namespace Opinion

variable (layers : List Layer)

/-- The opinions that stand at one path, the strongest layer first. -/
def atSite (map : NamespaceMap) (site : PrimPath) : List Opinion :=
  layers.filterMap fun layer => (layer.spec? site).map fun spec => ⟨layer, site, spec, map⟩

/-- The specs at one path, the strongest layer first. -/
def specsAt (site : PrimPath) : List PrimSpec :=
  layers.filterMap fun layer => layer.spec? site

/-- The variants selected at a prim by its own specs. The strongest layer that selects one in a set
decides, and a variant that no spec at the prim declares is not selected. -/
def choicesAt (prim : PrimPath) : List VariantChoice :=
  let specs := specsAt layers prim
  let selected : List VariantChoice := specs.foldl
    (fun selected spec => selected ++
      (spec.variantSelection.entries.map fun entry => ⟨entry.1, entry.2⟩).filter
        fun (choice : VariantChoice) => !selected.any fun other => other.set == choice.set)
    []
  selected.filter fun choice => specs.any fun spec => spec.declares choice

/-- The variants selected at a prim and at the prims above it, outermost first, each with the depth
of its prim. -/
def selectionsOn (path : PrimPath) : List (Nat × VariantChoice) :=
  path.ancestry.flatMap fun above => (choicesAt layers above).map (above.depth, ·)

/-- The paths where opinions on a prim stand that no arc leads to: its own path and, for each
selection that is not made below it, the path within the selected variant. -/
def sites (selections : List (Nat × VariantChoice)) (path : PrimPath) : List PrimPath :=
  path :: (selections.filter fun selection => decide (selection.1 ≤ path.depth)).map
    fun selection => path.choose selection.1 selection.2

/-- The opinions on a prim that no arc leads to. -/
def direct (map : NamespaceMap) (path : PrimPath) : List Opinion :=
  (sites (selectionsOn layers path) path).flatMap (atSite layers map)

/-- An arc from the prim that declares it to the prim that it takes opinions from. -/
structure Arc where
  owner : PrimPath
  source : PrimPath
  deriving DecidableEq, Repr

/-- For a prim on the way to a path, the selections on the path tell as much as its own. -/
theorem sites_selectionsOn {owner path : PrimPath} (mem : owner ∈ path.ancestry) :
    sites (selectionsOn layers path) owner = sites (selectionsOn layers owner) owner := by
  obtain ⟨index, lt, rfl⟩ := PrimPath.mem_ancestry.mp mem
  have le : index + 1 ≤ path.depth := lt
  have depth_eq : (path.truncate (index + 1)).depth = index + 1 := by simp [le]
  simp only [sites, depth_eq, selectionsOn, PrimPath.ancestry_truncate le, List.filter_flatMap]
  rw [← List.take_append_drop (index + 1) path.ancestry, List.flatMap_append]
  have beyond : ((path.ancestry.drop (index + 1)).flatMap fun above =>
      ((choicesAt layers above).map (above.depth, ·)).filter
        fun selection => decide (selection.1 ≤ index + 1)) = [] := by
    rw [List.flatMap_eq_nil_iff]
    intro above mem
    have := PrimPath.lt_depth_of_mem_drop_ancestry mem
    simp
    omega
  simp [beyond]

/-- The prims that specs refer to, each once. -/
def references (specs : List PrimSpec) : List PrimPath :=
  addAllNew [] (specs.flatMap (·.references))

/-- The prims that specs specialize: the strongest authored list counts. -/
def specialized (specs : List PrimSpec) : List PrimPath :=
  (specs.findSome? (·.specializes)).getD []

/-- The arcs that lead from a prim, strongest first: the references and then the specializes,
each declared on the prim or on a prim above it, the nearest first. An arc to a prim above or below
its own prim is ignored. -/
def arcsFrom (path : PrimPath) : List Arc :=
  let selections := selectionsOn layers path
  let declared := path.ancestry.reverse.map fun owner =>
    (owner, (sites selections owner).flatMap (specsAt layers))
  let arcs (sources : List PrimSpec → List PrimPath) : List Arc :=
    declared.flatMap fun (owner, specs) =>
      ((sources specs).filter fun source => !source.overlaps owner).map fun source =>
        ⟨owner, source⟩
  arcs references ++ arcs specialized

/-- The opinions on a prim when at most `budget` paths may be gathered within each other and
`visiting` are being gathered. -/
def gatherWithin : Nat → List PrimPath → NamespaceMap → PrimPath → List Opinion
  | 0, _, _, _ => []
  | budget + 1, visiting, map, path =>
    if path ∈ visiting then []
    else
      direct layers map path ++
        (arcsFrom layers path).flatMap fun arc =>
          match path.relocate? arc.owner arc.source with
          | none => []
          | some source =>
            gatherWithin budget (path :: visiting) (map.nest arc.source arc.owner) source

/-- The opinions on a prim, strongest first. -/
def gather (path : PrimPath) : List Opinion :=
  gatherWithin layers maxArcDepth [] .identity path

end Opinion

end LayeredShading
