import LayeredShading.Proofs.Composition.Extent

/-!
# What composition reads

The sites of a prim, its specs and the arcs from it depend only on the specs about the prims on the
way to it. `SameSpecs` says that two stacks of layers agree on one of them, and
`arcs_from_of_same_specs` that stacks which agree on all of them have the same arcs.
`ArcChain.of_same_arcs` carries chains of arcs over to another stack as long as they stay where the
arcs are the same.
-/

namespace LayeredShading

namespace Opinion

variable {layers others : List Layer}

/-! ## Specs at a site -/

/-- Stacks whose layers agree on a site one by one have the same specs there. -/
theorem specs_at_congr {site : PrimPath} (hlength : layers.length = others.length)
    (h : ∀ (place : Nat) (hlayer : place < layers.length) (hother : place < others.length),
      layers[place].spec? site = others[place].spec? site) :
    specsAt layers site = specsAt others site := by
  have hsame : layers.map (·.spec? site) = others.map (·.spec? site) := by
    apply List.ext_getElem
    · simpa using hlength
    · intro place hlayer hother
      simp only [List.length_map] at hlayer hother
      simpa using h place hlayer hother
  have hfilter : ∀ list : List Layer,
      specsAt list site = (list.map (·.spec? site)).filterMap id := by
    intro list
    rw [List.filterMap_map]
    rfl
  rw [hfilter, hfilter, hsame]

/-- The spec of one layer stands among those of the other layers. -/
theorem exists_specs_at_eq {index : Nat} (hindex : index < layers.length) {site : PrimPath}
    {spec : PrimSpec} (hspec : layers[index].spec? site = some spec) :
    ∃ front back, specsAt layers site = front ++ spec :: back ∧
      ∀ other ∈ front ++ back, ∃ (place : Nat) (hplace : place < layers.length),
        place ≠ index ∧ layers[place].spec? site = some other := by
  have hlayers : layers = layers.take index ++ layers[index] :: layers.drop (index + 1) := by
    rw [List.getElem_cons_drop, List.take_append_drop]
  refine ⟨(layers.take index).filterMap (·.spec? site),
    (layers.drop (index + 1)).filterMap (·.spec? site), ?_, ?_⟩
  · conv_lhs => rw [specsAt, hlayers]
    rw [List.filterMap_append, List.filterMap_cons, hspec]
  · intro other hother
    rcases List.mem_append.mp hother with hother | hother
    · obtain ⟨layer, hmem, hauthored⟩ := List.mem_filterMap.mp hother
      obtain ⟨place, hplace, rfl⟩ := List.mem_take_iff_getElem.mp hmem
      exact ⟨place, by omega, by omega, hauthored⟩
    · obtain ⟨layer, hmem, hauthored⟩ := List.mem_filterMap.mp hother
      obtain ⟨place, hplace, rfl⟩ := List.mem_drop_iff_getElem.mp hmem
      exact ⟨index + 1 + place, by omega, by omega, hauthored⟩

/-! ## Agreement on the way -/

/-- Two stacks have the same specs about a prim, also in its variants. -/
def SameSpecs (layers others : List Layer) (prim : PrimPath) : Prop :=
  ∀ site, site.stripChoices = prim.stripChoices → specsAt layers site = specsAt others site

theorem choices_at_congr {prim : PrimPath} (h : SameSpecs layers others prim) :
    choicesAt layers prim = choicesAt others prim := by
  rw [choicesAt, choicesAt, h prim rfl]

theorem local_sites_of_same_specs {path : PrimPath}
    (h : ∀ above ∈ path.ancestry, SameSpecs layers others above) :
    localSites layers path = localSites others path := by
  have hselections : selectionsOn layers path = selectionsOn others path := by
    apply List.flatMap_congr
    intro above habove
    rw [choices_at_congr (h above habove)]
  rw [localSites, localSites, hselections]

/-- The specs of a prim are the same where those about the prims on the way are. -/
theorem specs_on_of_same_specs {path : PrimPath} (hpos : 0 < path.depth)
    (h : ∀ above ∈ path.ancestry, SameSpecs layers others above) :
    specsOn layers path = specsOn others path := by
  have hself : path ∈ path.ancestry := PrimPath.mem_ancestry_iff.mpr ⟨hpos, [], by simp⟩
  rw [specsOn, specsOn, local_sites_of_same_specs h]
  apply List.flatMap_congr
  intro site hsite
  exact h path hself site (strip_of_mem_local_sites hsite)

/-- The arcs from a prim are the same where the specs about the prims on the way are. -/
theorem arcs_from_of_same_specs {path : PrimPath}
    (h : ∀ above ∈ path.ancestry, SameSpecs layers others above) :
    arcsFrom layers path = arcsFrom others path := by
  refine arcs_from_congr fun owner howner => ?_
  obtain ⟨hpos, rest, rfl⟩ := PrimPath.mem_ancestry_iff.mp howner
  refine specs_on_of_same_specs hpos fun above habove => ?_
  obtain ⟨haboveDepth, between, rfl⟩ := PrimPath.mem_ancestry_iff.mp habove
  exact h above (PrimPath.mem_ancestry_iff.mpr ⟨haboveDepth, between ++ rest, by simp⟩)

/-- A chain that stays where two stacks have the same arcs is a chain in both. -/
theorem ArcChain.of_same_arcs (stays : PrimPath → Prop)
    (hsame : ∀ path, stays path → arcsFrom layers path = arcsFrom others path)
    (hstep : ∀ path source, ArcStep others path source → stays source) {path : PrimPath}
    {rest : List PrimPath} (hpath : stays path) (h : ArcChain layers (path :: rest)) :
    ArcChain others (path :: rest) := by
  -- Each step is one of the other stack too, which keeps the path where the arcs are the same.
  induction rest generalizing path with
  | nil => exact .singleton path
  | cons source rest ih =>
      have hother : ArcStep others path source := by
        obtain ⟨arc, harc, hmoved⟩ := h.step
        exact ⟨arc, hsame path hpath ▸ harc, hmoved⟩
      exact .cons hother (ih (hstep path source hother) h.tail) (List.nodup_cons.mp h.distinct).1

end Opinion

end LayeredShading
