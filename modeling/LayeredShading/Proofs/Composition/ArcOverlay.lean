import LayeredShading.Proofs.Composition.Locality
import LayeredShading.Proofs.Composition.SourceOverlay

/-!
# An arc is an overlay

Taking opinions from the source of an arc is the same as laying the prim's own specs over the
composed prim at the source. `SingleArc` describes prims that declare one arc among specs that
declare none: then the arc is the only one that leads from the prim and from the prims below it, and
the own opinions are those of the plain specs and those in the variants that the prim chooses
(`ownOpinions`).
-/

namespace LayeredShading

/-- A spec declares no arcs and selects no variants. -/
structure PrimSpec.Quiet (spec : PrimSpec) : Prop where
  references_eq : spec.references = []
  specializes_eq : spec.specializes = none
  variant_selection_eq : spec.variantSelection = .empty

instance (spec : PrimSpec) : Decidable spec.Quiet :=
  decidable_of_iff
    (spec.references = [] ∧ spec.specializes = none ∧ spec.variantSelection = .empty)
    ⟨fun ⟨hreferences, hspecializes, hselection⟩ => ⟨hreferences, hspecializes, hselection⟩,
      fun ⟨hreferences, hspecializes, hselection⟩ => ⟨hreferences, hspecializes, hselection⟩⟩

theorem PrimSpec.Quiet.arc_targets_eq {spec : PrimSpec} (h : spec.Quiet) :
    spec.arcTargets = [] := by
  simp [arcTargets, h.references_eq, h.specializes_eq]

/-- Among quiet specs the arcs are those of the one spec that is not quiet. -/
theorem Opinion.targets_of_quiet {front back : List PrimSpec} {spec : PrimSpec}
    {source : PrimPath} (hfront : ∀ other ∈ front, other.Quiet)
    (hback : ∀ other ∈ back, other.Quiet) (htargets : spec.arcTargets = [source]) :
    references (front ++ spec :: back) ++ specialized (front ++ spec :: back) = [source] := by
  have hnoReferences : ∀ specs : List PrimSpec, (∀ other ∈ specs, other.Quiet) →
      specs.flatMap (·.references) = [] := fun specs hspecs =>
    List.flatMap_eq_nil_iff.mpr fun other hother => (hspecs other hother).references_eq
  have hnoSpecializes : ∀ specs : List PrimSpec, (∀ other ∈ specs, other.Quiet) →
      specs.findSome? (·.specializes) = none := fun specs hspecs =>
    List.findSome?_eq_none_iff.mpr fun other hother => (hspecs other hother).specializes_eq
  have hreferences : references (front ++ spec :: back) = addAllNew [] spec.references := by
    rw [references, List.flatMap_append, List.flatMap_cons, hnoReferences front hfront,
      hnoReferences back hback, List.nil_append, List.append_nil]
  have hspecialized : specialized (front ++ spec :: back) = spec.specializes.getD [] := by
    rw [specialized, List.findSome?_append, List.findSome?_cons, hnoSpecializes front hfront,
      hnoSpecializes back hback]
    cases spec.specializes <;> rfl
  rw [hreferences, hspecialized]
  rcases List.append_eq_singleton_iff.mp htargets with ⟨hnone, hone⟩ | ⟨hone, hnone⟩
  · rw [hnone, hone]
    rfl
  · rw [hone, hnone]
    rfl

/-- A path is that of a prim, lies above or below it, or belongs to a variant that is chosen at
it. -/
def Concerns (layers : List Layer) (prim site : PrimPath) : Prop :=
  site.overlaps prim = true ∨ ∃ choice ∈ Opinion.choicesAt layers prim,
    site.isUnder (prim.choose prim.depth choice) = true

instance (layers : List Layer) (prim site : PrimPath) : Decidable (Concerns layers prim site) :=
  inferInstanceAs (Decidable (_ ∨ _))

/-- One spec of a prim declares an arc, to one source, and no other spec that concerns the prim
declares arcs or selects variants. No arc leads to a prim above or below, and no chain from the
source or below it is too long for the prim to be put in front of it. -/
structure SingleArc (layers : List Layer) (prim source : PrimPath) : Prop where
  prim_plain : prim.hasChoices = false
  source_plain : source.hasChoices = false
  authored : ∃ (index : Nat) (hindex : index < layers.length) (spec : PrimSpec),
    layers[index].spec? prim = some spec ∧ spec.arcTargets = [source] ∧
      ∀ (other : Nat) (hother : other < layers.length), ∀ entry ∈ layers[other].specs.entries,
        (other, entry.1) ≠ (index, prim) → Concerns layers prim entry.1 → entry.2.Quiet
  untargeted : Opinion.Untargeted layers prim
  short : ∀ names rest, Opinion.ArcChain layers (source.descend names :: rest) →
    rest.length + 1 < maxArcDepth

namespace SingleArc

open Opinion

variable {layers : List Layer} {prim source : PrimPath}

/-- The prim is not the root, and the source lies neither above nor below it. -/
theorem apart (h : SingleArc layers prim source) :
    0 < prim.depth ∧ source.overlaps prim = false := by
  obtain ⟨index, hindex, spec, hspec, htargets, -⟩ := h.authored
  have hapart : source.overlaps prim = false :=
    h.untargeted layers[index] (List.getElem_mem hindex) (prim, spec)
      (SortedMap.get?_eq_some_iff.mp hspec) source (by simp [htargets])
  exact ⟨PrimPath.depth_pos_of_apart (PrimPath.overlaps_comm source prim ▸ hapart), hapart⟩

/-- At a path other than that of the prim, all specs that concern the prim are quiet. -/
theorem quiet_of_ne (h : SingleArc layers prim source) {site : PrimPath} (hne : site ≠ prim)
    (hconcerns : Concerns layers prim site) {layer : Layer} (hlayer : layer ∈ layers)
    {spec : PrimSpec} (hspec : layer.spec? site = some spec) : spec.Quiet := by
  obtain ⟨index, -, -, -, -, hquiet⟩ := h.authored
  obtain ⟨other, hother, rfl⟩ := List.mem_iff_getElem.mp hlayer
  exact hquiet other hother (site, spec) (SortedMap.get?_eq_some_iff.mp hspec)
    (fun hsame => hne (Prod.mk.inj hsame).2) hconcerns

/-- Of the prims on the way to a prim below, only the prim itself makes choices. -/
theorem choices_eq_nil (h : SingleArc layers prim source) {rest : List Segment}
    {above : PrimPath} (habove : above ∈ (prim.append rest).ancestry) (hne : above ≠ prim) :
    choicesAt layers above = [] := by
  have hoverlaps : above.overlaps prim = true := by
    simpa [PrimPath.overlaps] using PrimPath.under_or_above_of_mem_ancestry habove
  apply choices_at_eq_nil
  intro spec hspec
  obtain ⟨layer, hlayer, hauthored⟩ := List.mem_filterMap.mp hspec
  exact (h.quiet_of_ne hne (.inl hoverlaps) hlayer hauthored).variant_selection_eq

/-- Specs within the variants that the prim chooses are quiet. -/
theorem quiet_of_choice (h : SingleArc layers prim source) {choice : VariantChoice}
    (hchoice : choice ∈ choicesAt layers prim) (rest : List Segment) {layer : Layer}
    (hlayer : layer ∈ layers) {spec : PrimSpec}
    (hspec : layer.spec? ((prim.append rest).choose prim.depth choice) = some spec) :
    spec.Quiet := by
  rw [PrimPath.choose_append (Nat.le_refl _)] at hspec
  refine h.quiet_of_ne ?_ (.inr ⟨choice, hchoice, PrimPath.is_under_append _ _⟩) hlayer hspec
  intro hsame
  have hself := congrArg PrimPath.depth hsame
  rw [PrimPath.depth_append, PrimPath.depth_choose] at hself
  have hnil : rest = [] := List.length_eq_zero_iff.mp (by omega)
  rw [hnil, PrimPath.append_nil] at hsame
  exact PrimPath.choose_ne_self h.apart.1 (Nat.le_refl _) choice hsame

/-- Of the prims on the way to a prim below, no other declares arcs. -/
theorem arc_targets_eq_nil (h : SingleArc layers prim source) {rest : List Segment}
    {other : PrimPath} (hother : other ∈ (prim.append rest).ancestry) (hne : other ≠ prim)
    {spec : PrimSpec} (hspec : spec ∈ specsOn layers other) : spec.arcTargets = [] := by
  rcases PrimPath.under_or_above_of_mem_ancestry hother with hunder | habove
  · -- Below the prim, specs stand at the path and within the variants chosen at the prim.
    have hoverlaps : other.overlaps prim = true := by simp [PrimPath.overlaps, hunder]
    obtain ⟨below, rfl⟩ := PrimPath.is_under_iff.mp hunder
    obtain ⟨layer, hlayer, site, hsite, hauthored⟩ := mem_specs_on.mp hspec
    rw [local_sites_of_single_chooser h.apart.1 fun _ habove => h.choices_eq_nil habove,
      List.mem_cons, List.mem_map] at hsite
    rcases hsite with rfl | ⟨choice, hchoice, rfl⟩
    · exact (h.quiet_of_ne hne (.inl hoverlaps) hlayer hauthored).arc_targets_eq
    · exact (h.quiet_of_choice hchoice below hlayer hauthored).arc_targets_eq
  · -- Above the prim nothing is chosen, so specs stand at the path only.
    have hoverlaps : other.overlaps prim = true := by simp [PrimPath.overlaps, habove]
    rw [specs_on_of_above habove hne fun above hway =>
      h.choices_eq_nil (show above ∈ (prim.append []).ancestry by simpa using hway)] at hspec
    obtain ⟨layer, hlayer, hauthored⟩ := List.mem_filterMap.mp hspec
    exact (h.quiet_of_ne hne (.inl hoverlaps) hlayer hauthored).arc_targets_eq

/-- The prim's specs declare the arc to the source and no other. -/
theorem targets_eq (h : SingleArc layers prim source) :
    references (specsOn layers prim) ++ specialized (specsOn layers prim) = [source] := by
  obtain ⟨index, hindex, spec, hspec, htargets, hquiet⟩ := h.authored
  have hself : Concerns layers prim prim := .inl (by simp [PrimPath.overlaps])
  have hsites : localSites layers prim =
      prim :: (choicesAt layers prim).map fun choice => prim.choose prim.depth choice := by
    have hchoices : ∀ above ∈ (prim.append []).ancestry, above ≠ prim →
        choicesAt layers above = [] := fun above habove => h.choices_eq_nil habove
    simpa using local_sites_of_single_chooser h.apart.1 hchoices
  obtain ⟨front, back, hown, hothers⟩ := exists_specs_at_eq hindex hspec
  have hplain : ∀ other ∈ front ++ back, other.Quiet := by
    intro other hother
    obtain ⟨place, hplace, hne, hauthored⟩ := hothers other hother
    refine hquiet place hplace (prim, other) (SortedMap.get?_eq_some_iff.mp hauthored) ?_ hself
    exact fun hsame => hne (Prod.mk.inj hsame).1
  have hvariants : ∀ other ∈ (choicesAt layers prim).flatMap fun choice =>
      specsAt layers (prim.choose prim.depth choice), other.Quiet := by
    intro other hother
    obtain ⟨choice, hchoice, hother⟩ := List.mem_flatMap.mp hother
    obtain ⟨layer, hmem, hauthored⟩ := List.mem_filterMap.mp hother
    exact h.quiet_of_choice hchoice [] hmem (by simpa using hauthored)
  have hspecs : specsOn layers prim = front ++ spec :: (back ++
      (choicesAt layers prim).flatMap fun choice =>
        specsAt layers (prim.choose prim.depth choice)) := by
    rw [specsOn, hsites, List.flatMap_cons, List.flatMap_map, hown, List.append_assoc,
      List.cons_append]
  rw [hspecs]
  refine targets_of_quiet (fun other hother => hplain other (by simp [hother])) ?_ htargets
  intro other hother
  rcases List.mem_append.mp hother with hother | hother
  · exact hplain other (by simp [hother])
  · exact hvariants other hother

end SingleArc

/-- A prim that declares one arc, and every prim below it, is the overlay of its own opinions over
the composed prim at the same place below the source. -/
theorem compose_of_single_arc {layers : List Layer} {prim source : PrimPath}
    (h : SingleArc layers prim source) (names : List String) :
    Overlays (ownOpinions layers prim names) source prim
      (compose layers (source.descend names)) (compose layers (prim.descend names)) :=
  overlays_of_single_target h.prim_plain h.source_plain
    (fun _ habove => h.choices_eq_nil habove)
    (fun _ hother hne _ hspec => h.arc_targets_eq_nil hother hne hspec)
    h.targets_eq h.apart.2 h.untargeted (h.short names)

/-- A prim that refers to another and overrides its child, in front of a source that itself refers
to a third prim. -/
def overridingLayers : List Layer :=
  [⟨"strong", .ofList [
    (⟨[.plain "P"]⟩, { PrimSpec.blank .define with references := [⟨[.plain "T"]⟩] }),
    (⟨[.plain "P", .plain "C"]⟩, { PrimSpec.blank .override with typeName := some "Shader" })]⟩,
  ⟨"weak", .ofList [
    (⟨[.plain "T"]⟩, { PrimSpec.blank .define with specializes := some [⟨[.plain "U"]⟩] }),
    (⟨[.plain "U"]⟩, { PrimSpec.blank .define with typeName := some "Material" }),
    (⟨[.plain "U", .plain "C"]⟩, { PrimSpec.blank .define with typeName := some "NodeGraph" }),
    (⟨[.plain "U", .plain "D"]⟩, .blank .define)]⟩]

/-- In those layers the arc is single, and the child is laid over what the second arc leads to. -/
theorem overriding_child_overlays :
    SingleArc overridingLayers ⟨[.plain "P"]⟩ ⟨[.plain "T"]⟩ ∧
      Overlays (ownOpinions overridingLayers ⟨[.plain "P"]⟩ ["C"]) ⟨[.plain "T"]⟩ ⟨[.plain "P"]⟩
        (compose overridingLayers ⟨[.plain "T", .plain "C"]⟩)
        (compose overridingLayers ⟨[.plain "P", .plain "C"]⟩) := by
  have hranked : Opinion.Ranked overridingLayers fun name =>
      if name = "P" then 2 else if name = "T" then 1 else 0 := by
    unfold Opinion.Ranked
    decide
  have hsingle : SingleArc overridingLayers ⟨[.plain "P"]⟩ ⟨[.plain "T"]⟩ := by
    refine ⟨by decide, by decide, ⟨0, by decide, _, rfl, by decide, by decide⟩, ?_, ?_⟩
    · unfold Opinion.Untargeted
      decide
    · intro names rest hchain
      have hle : rest.length ≤ 1 := hchain.length_le_rank hranked
      exact Nat.lt_of_le_of_lt (Nat.succ_le_succ hle) (by decide)
  exact ⟨hsingle, compose_of_single_arc hsingle ["C"]⟩

/-- A prim that refers to another and selects a variant which gives it a type. -/
def choosingLayers : List Layer :=
  [⟨"root", .ofList [
    (⟨[.plain "P"]⟩, { PrimSpec.blank .define with
      references := [⟨[.plain "T"]⟩], variantSets := [⟨"look", ["X"]⟩],
      variantSelection := .ofList [("look", "X")] }),
    (⟨[⟨"P", [⟨"look", "X"⟩]⟩]⟩, { PrimSpec.blank .override with typeName := some "Material" }),
    (⟨[.plain "T"]⟩, .blank .define)]⟩]

/-- In those layers the arc is single, but the type of the prim comes neither from its plain specs
nor from the source. -/
theorem chosen_variant_decides_type :
    SingleArc choosingLayers ⟨[.plain "P"]⟩ ⟨[.plain "T"]⟩ ∧
      (compose choosingLayers ⟨[.plain "P"]⟩).bind (·.typeName) ≠
        ((Opinion.specsAt choosingLayers ⟨[.plain "P"]⟩).findSome? (·.typeName)).or
          ((compose choosingLayers ⟨[.plain "T"]⟩).bind (·.typeName)) := by
  have hranked : Opinion.Ranked choosingLayers fun name => if name = "P" then 1 else 0 := by
    unfold Opinion.Ranked
    decide
  refine ⟨⟨by decide, by decide, ⟨0, by decide, _, rfl, by decide, by decide⟩, ?_, ?_⟩, by decide⟩
  · unfold Opinion.Untargeted
    decide
  · intro names rest hchain
    have hle : rest.length ≤ 0 := hchain.length_le_rank hranked
    exact Nat.lt_of_le_of_lt (Nat.succ_le_succ hle) (by decide)

end LayeredShading
