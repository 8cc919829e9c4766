import LayeredShading.Proofs.Composition.Extent

/-!
# Specs that composition does not read

Two stacks that have the same specs off some hidden paths compose the same scene if gathering never
comes to a hidden path: no site of a plain path is hidden, nor is a child of one, and all arcs lead
to plain paths. Layers are part of the opinions that are gathered, so the opinions differ between
the stacks; what composition reads of them (`Opinion.view`) does not (`view_gather_eq`), and that
determines the composed prim (`compose_eq_of_agree_off`).
-/

namespace LayeredShading

variable {hidden : PrimPath → Prop}

/-- Two layers have the same specs off some paths. -/
def Layer.AgreeOff (hidden : PrimPath → Prop) (layer other : Layer) : Prop :=
  ∀ path, ¬ hidden path → layer.spec? path = other.spec? path

/-- Layers that agree on the children of a site list the same ones. -/
theorem Layer.AgreeOff.child_names_eq {layer other : Layer} (h : layer.AgreeOff hidden other)
    {site : PrimPath} (hsite : ∀ name, ¬ hidden (site.push name)) :
    layer.childNames site = other.childNames site := by
  let isChild (path : PrimPath) : Bool := !path.endsInChoice && path.parent? == some site
  -- The list is made from the map of the specs of the children alone.
  have hfilter : ∀ specs : SortedMap PrimPath PrimSpec,
      specs.keys.filter isChild = (specs.filterKeys isChild).keys := by
    intro specs
    simp only [SortedMap.keys, SortedMap.filterKeys, List.filter_map]
    rfl
  have hspecs : layer.specs.filterKeys isChild = other.specs.filterKeys isChild := by
    apply SortedMap.ext_get?
    intro path
    rw [SortedMap.get?_filterKeys, SortedMap.get?_filterKeys]
    split
    next hchild =>
      obtain ⟨name, rfl⟩ : ∃ name, path = site.push name :=
        PrimPath.is_child_iff.mp (by simpa [isChild] using hchild)
      exact h _ (hsite name)
    next => rfl
  calc layer.childNames site
      = ((layer.specs.filterKeys isChild).keys).filterMap PrimPath.name? := by
        rw [← hfilter]
        rfl
    _ = ((other.specs.filterKeys isChild).keys).filterMap PrimPath.name? := by rw [hspecs]
    _ = other.childNames site := by
        rw [← hfilter]
        rfl

namespace Opinion

/-- What composition reads of an opinion. -/
def view (opinion : Opinion) : PrimSpec × List String := (opinion.localized, opinion.childNames)

/-- The overlay of opinions depends only on what is read of them. -/
theorem overlay_all_eq_of_view {opinions others : List Opinion}
    (h : opinions.map view = others.map view) : overlayAll opinions = overlayAll others := by
  have hfold : ∀ list : List Opinion, overlayAll list =
      (list.map view).foldl (fun overlaid seen => overlaid.overlay seen.1) (.blank .override) := by
    intro list
    rw [List.foldl_map]
    rfl
  rw [hfold, hfold, h]

/-- What composes depends only on what is read of the opinions. -/
theorem compose_eq_of_view {layers others : List Layer} {path : PrimPath}
    (h : (gather layers path).map view = (gather others path).map view) :
    compose layers path = compose others path := by
  have hoverlay := overlay_all_eq_of_view h
  have hchildren : (gather layers path).flatMap childNames =
      (gather others path).flatMap childNames := by
    have hflat : ∀ list : List Opinion,
        list.flatMap childNames = (list.map view).flatMap (·.2) := by
      intro list
      rw [List.flatMap_map]
      rfl
    rw [hflat, hflat, h]
  unfold compose
  generalize gather layers path = opinions at *
  generalize gather others path = seen at *
  cases opinions with
  | nil =>
      obtain rfl : seen = [] := List.map_eq_nil_iff.mp h.symm
      rfl
  | cons opinion rest =>
      cases seen with
      | nil => cases h
      | cons other more =>
          show (if _ then none else some _) = if _ then none else some _
          rw [hoverlay, hchildren]

variable {layers others : List Layer}

/-! ## Sites that are not hidden -/

/-- Neither a path nor a child of it is hidden. -/
def Visible (hidden : PrimPath → Prop) (site : PrimPath) : Prop :=
  ¬ hidden site ∧ ∀ name, ¬ hidden (site.push name)

theorem specs_at_eq_of_agree_off (h : List.Forall₂ (Layer.AgreeOff hidden) layers others)
    {site : PrimPath} (hsite : ¬ hidden site) : specsAt layers site = specsAt others site := by
  induction h with
  | nil => rfl
  | cons hlayer _ ih =>
      simp only [specsAt, List.filterMap_cons, hlayer site hsite] at ih ⊢
      rw [ih]

/-- The opinions at a visible site look the same. -/
theorem view_at_site_eq (h : List.Forall₂ (Layer.AgreeOff hidden) layers others)
    {site : PrimPath} (hsite : Visible hidden site) (map : NamespaceMap) :
    (atSite layers map site).map view = (atSite others map site).map view := by
  induction h with
  | nil => rfl
  | @cons layer other _ _ hlayer _ ih =>
      have hnames := hlayer.child_names_eq hsite.2
      simp only [atSite, List.filterMap_cons, hlayer site hsite.1] at ih ⊢
      cases other.spec? site with
      | none => simpa using ih
      | some spec => simpa [view, childNames, localized, hnames] using ih

/-! ## Gathering -/

/-- All sites of plain paths are visible. -/
def SitesVisible (hidden : PrimPath → Prop) (layers : List Layer) : Prop :=
  ∀ path : PrimPath, path.hasChoices = false →
    ∀ site ∈ localSites layers path, Visible hidden site

/-- No spec authors an arc to a path with choices. -/
def ArcsPlain (layers : List Layer) : Prop :=
  ∀ layer ∈ layers, ∀ entry ∈ layer.specs.entries, ∀ target ∈ entry.2.arcTargets,
    target.hasChoices = false

/-- A prim on the way to a plain path has a plain path. -/
theorem has_choices_of_mem_ancestry {path above : PrimPath} (hplain : path.hasChoices = false)
    (h : above ∈ path.ancestry) : above.hasChoices = false := by
  obtain ⟨-, rest, rfl⟩ := PrimPath.mem_ancestry_iff.mp h
  rw [PrimPath.has_choices_append, Bool.or_eq_false_iff] at hplain
  exact hplain.1

section Agree

variable (h : List.Forall₂ (Layer.AgreeOff hidden) layers others)
  (hvisible : SitesVisible hidden layers) {path : PrimPath} (hplain : path.hasChoices = false)

include h hvisible hplain

theorem selections_on_eq_of_agree_off : selectionsOn layers path = selectionsOn others path := by
  apply List.flatMap_congr
  intro above habove
  have hself : above ∈ localSites layers above := mem_local_sites.mpr (.inl rfl)
  have hspecs := specs_at_eq_of_agree_off h
    (hvisible above (has_choices_of_mem_ancestry hplain habove) above hself).1
  rw [choicesAt, choicesAt, hspecs]

theorem local_sites_eq_of_agree_off : localSites layers path = localSites others path := by
  rw [localSites, localSites, selections_on_eq_of_agree_off h hvisible hplain]

theorem arcs_from_eq_of_agree_off : arcsFrom layers path = arcsFrom others path := by
  refine arcs_from_congr fun owner howner => ?_
  have hplain := has_choices_of_mem_ancestry hplain howner
  rw [specsOn, specsOn, ← local_sites_eq_of_agree_off h hvisible hplain]
  apply List.flatMap_congr
  intro site hsite
  exact specs_at_eq_of_agree_off h (hvisible owner hplain site hsite).1

theorem view_direct_eq (map : NamespaceMap) :
    (direct layers map path).map view = (direct others map path).map view := by
  have hsites := local_sites_eq_of_agree_off h hvisible hplain
  simp only [direct, List.map_flatMap]
  rw [← localSites, ← localSites, ← hsites]
  apply List.flatMap_congr
  intro site hsite
  exact view_at_site_eq h (hvisible path hplain site hsite) map

end Agree

/-- An arc from a plain path leads to a plain path. -/
theorem ArcStep.has_choices_eq_false (harcs : ArcsPlain layers) {path source : PrimPath}
    (hplain : path.hasChoices = false) (h : ArcStep layers path source) :
    source.hasChoices = false := by
  obtain ⟨arc, harc, rest, rfl, rfl⟩ := h.exists_append
  obtain ⟨-, -, spec, hspec, htarget⟩ := exists_of_mem_arcs_from harc
  obtain ⟨layer, hlayer, site, -, hauthored⟩ := mem_specs_on.mp hspec
  have hsource := harcs layer hlayer (site, spec) (SortedMap.get?_eq_some_iff.mp hauthored)
    arc.source htarget
  rw [PrimPath.has_choices_append, Bool.or_eq_false_iff] at hplain ⊢
  exact ⟨hsource, hplain.2⟩

/-- The opinions that are gathered on a plain path look the same in both stacks. -/
theorem view_gather_within_eq (h : List.Forall₂ (Layer.AgreeOff hidden) layers others)
    (hvisible : SitesVisible hidden layers) (harcs : ArcsPlain layers) {budget : Nat}
    {visiting : List PrimPath} {map : NamespaceMap} {path : PrimPath}
    (hplain : path.hasChoices = false) :
    (gatherWithin layers budget visiting map path).map view =
      (gatherWithin others budget visiting map path).map view := by
  induction budget generalizing visiting map path with
  | zero => rfl
  | succ budget ih =>
      by_cases hvisiting : path ∈ visiting
      · simp [gatherWithin, hvisiting]
      · simp only [gatherWithin, hvisiting, if_false, List.map_append, List.map_flatMap,
          view_direct_eq h hvisible hplain, ← arcs_from_eq_of_agree_off h hvisible hplain]
        congr 1
        apply List.flatMap_congr
        intro arc harc
        cases hmoved : path.relocate? arc.owner arc.source with
        | none => rfl
        | some source =>
            exact ih (ArcStep.has_choices_eq_false harcs hplain ⟨arc, harc, hmoved⟩)

end Opinion

/-- Stacks that differ only in hidden specs compose the same prims. -/
theorem compose_eq_of_agree_off {layers others : List Layer}
    (h : List.Forall₂ (Layer.AgreeOff hidden) layers others)
    (hvisible : Opinion.SitesVisible hidden layers) (harcs : Opinion.ArcsPlain layers)
    (path : PrimPath) : compose layers path = compose others path := by
  by_cases hplain : path.hasChoices = false
  · exact Opinion.compose_eq_of_view (Opinion.view_gather_within_eq h hvisible harcs hplain)
  · simp [compose, hplain]

end LayeredShading
