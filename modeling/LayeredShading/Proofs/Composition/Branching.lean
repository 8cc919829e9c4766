import LayeredShading.Proofs.Composition.Extension
import LayeredShading.Proofs.Composition.SourceOverlay

/-!
# Changes beside arcs and variants

Which sites and arcs a prim has depends only on what specs say of arcs, variants and selections
(`PrimSpec.branching`), and a spec that says nothing of them may as well be missing. Stacks that
agree on it (`Opinion.Alike`) gather opinions at the same sites in the same order, so whatever
holds between the opinions at each site holds between all that is gathered
(`Alike.gather_related`). After a change of one spec that leaves the branching as it is, a field
that the first opinion decides is therefore as before or the one that the change has written
(`find_some_gather_changed`).
-/

namespace LayeredShading

/-- What a spec says of arcs, variants and selections. -/
def PrimSpec.branching (spec : PrimSpec) : PrimSpec :=
  { PrimSpec.blank .override with
    references := spec.references
    specializes := spec.specializes
    variantSets := spec.variantSets
    variantSelection := spec.variantSelection }

/-- What a layer says at a path of arcs, variants and selections. -/
def Layer.branchingAt (layer : Layer) (path : PrimPath) : PrimSpec :=
  (layer.specOrBlank path).branching

/-- A change that leaves the branching of specs as it is leaves that of the layer as it is, also
where it makes a spec. -/
theorem Layer.branching_at_change_spec (layer : Layer) (site : PrimPath) (specifier : Specifier)
    {change : PrimSpec → PrimSpec}
    (hchange : ∀ spec : PrimSpec, (change spec).branching = spec.branching) (path : PrimPath) :
    (layer.changeSpec site specifier change).branchingAt path = layer.branchingAt path := by
  rw [branchingAt, branchingAt, specOrBlank, specOrBlank, spec_change_spec]
  split
  next hpath =>
    subst hpath
    rw [Option.getD_some, hchange]
    cases layer.spec? path <;> rfl
  next => rfl

namespace Opinion

/-- The layers of two stacks say the same of arcs, variants and selections. -/
def Alike (layers others : List Layer) : Prop :=
  ∀ site, layers.map (·.branchingAt site) = others.map (·.branchingAt site)

variable {layers others : List Layer}

/-! ## Sites and arcs -/

/-- What the specs at a site say of arcs is what the layers say there. -/
theorem flat_map_specs_at {β : Type} (field : PrimSpec → List β)
    (hblank : field (.blank .override) = [])
    (hbranching : ∀ spec : PrimSpec, field spec.branching = field spec) (site : PrimPath) :
    (specsAt layers site).flatMap field =
      (layers.map (·.branchingAt site)).flatMap field := by
  induction layers with
  | nil => rfl
  | cons layer rest ih =>
      rw [List.map_cons, List.flatMap_cons, ← ih, Layer.branchingAt, hbranching, Layer.specOrBlank,
        specsAt, List.filterMap_cons]
      cases layer.spec? site with
      | none => rw [Option.getD_none, hblank, List.nil_append]; rfl
      | some spec => rfl

/-- The selections at a prim are those that the layers make there. -/
theorem selected_at_eq_branching (prim : PrimPath) :
    selectedAt layers prim = (layers.map (·.branchingAt prim)).foldl withSelections [] := by
  rw [selected_at_eq, List.foldl_map, List.foldl_map]
  rfl

/-- The variants that are declared at a prim are those that the layers declare there. -/
theorem declared_at_iff_branching {prim : PrimPath} {choice : VariantChoice} :
    DeclaredAt layers prim choice ↔
      ∃ spec ∈ layers.map (·.branchingAt prim), spec.declares choice = true := by
  rw [DeclaredAt, exists_mem_specs_at_iff (·.declares choice = true)
    (by simp [PrimSpec.declares, PrimSpec.blank])]
  simp only [List.mem_map, exists_exists_and_eq_and]
  rfl

/-- The sites of a path depend on it only which variants are chosen on the way. -/
theorem local_sites_congr {path : PrimPath}
    (h : ∀ above ∈ path.ancestry, choicesAt layers above = choicesAt others above) :
    localSites layers path = localSites others path := by
  have hselections : selectionsOn layers path = selectionsOn others path := by
    apply List.flatMap_congr
    intro above habove
    rw [h above habove]
  rw [localSites, localSites, hselections]

namespace Alike

variable (h : Alike layers others)

include h

theorem choices_at_eq (prim : PrimPath) : choicesAt layers prim = choicesAt others prim := by
  have hselected : (specsAt layers prim).foldl withSelections [] =
      (specsAt others prim).foldl withSelections [] := by
    show selectedAt layers prim = selectedAt others prim
    rw [selected_at_eq_branching, selected_at_eq_branching, h prim]
  rw [Opinion.choices_at_eq, Opinion.choices_at_eq, hselected]
  apply List.filter_congr
  intro choice _
  rw [Bool.eq_iff_iff, List.any_eq_true, List.any_eq_true]
  show DeclaredAt layers prim choice ↔ DeclaredAt others prim choice
  rw [declared_at_iff_branching, declared_at_iff_branching, h prim]

theorem local_sites_eq (path : PrimPath) : localSites layers path = localSites others path :=
  local_sites_congr fun above _ => h.choices_at_eq above

/-- What the specs of a prim say of arcs is the same. -/
theorem flat_map_specs_on {β : Type} (field : PrimSpec → List β)
    (hblank : field (.blank .override) = [])
    (hbranching : ∀ spec : PrimSpec, field spec.branching = field spec) (path : PrimPath) :
    (specsOn layers path).flatMap field = (specsOn others path).flatMap field := by
  rw [specsOn, specsOn, List.flatMap_assoc, List.flatMap_assoc, h.local_sites_eq]
  apply List.flatMap_congr
  intro site _
  rw [flat_map_specs_at field hblank hbranching, flat_map_specs_at field hblank hbranching, h site]

theorem arcs_from_eq (path : PrimPath) : arcsFrom layers path = arcsFrom others path := by
  have hreferences : ∀ owner,
      references (specsOn layers owner) = references (specsOn others owner) := by
    intro owner
    rw [references, references, h.flat_map_specs_on (·.references) rfl fun _ => rfl]
  have hspecialized : ∀ owner,
      specialized (specsOn layers owner) = specialized (specsOn others owner) := by
    intro owner
    have hfirst : ∀ specs : List PrimSpec, specs.findSome? (·.specializes) =
        (specs.flatMap fun spec => spec.specializes.toList).head? := by
      intro specs
      simp [List.head?_flatMap]
    rw [specialized, specialized, hfirst, hfirst,
      h.flat_map_specs_on (fun spec => spec.specializes.toList) rfl fun _ => rfl]
  have hown : ownArcs layers references = ownArcs others references ∧
      ownArcs layers specialized = ownArcs others specialized :=
    ⟨funext fun owner => by rw [ownArcs, ownArcs, hreferences],
      funext fun owner => by rw [ownArcs, ownArcs, hspecialized]⟩
  rw [Opinion.arcs_from_eq, Opinion.arcs_from_eq, hown.1, hown.2]

end Alike

/-! ## Opinions -/

section Related

variable {related : List Opinion → List Opinion → Prop} (hnil : related [] [])
  (happend : ∀ {first second more others}, related first second → related more others →
    related (first ++ more) (second ++ others))

include hnil happend

/-- What is related part by part is related as a whole. -/
theorem flat_map_related {α : Type} {list : List α} {first second : α → List Opinion}
    (h : ∀ element ∈ list, related (first element) (second element)) :
    related (list.flatMap first) (list.flatMap second) := by
  induction list with
  | nil => exact hnil
  | cons head rest ih =>
      rw [List.flatMap_cons, List.flatMap_cons]
      exact happend (h head List.mem_cons_self)
        (ih fun element hmem => h element (List.mem_cons_of_mem _ hmem))

/-- What is related site by site is related in all that is gathered. -/
theorem Alike.gather_within_related (h : Alike layers others)
    (hsite : ∀ map site, related (atSite layers map site) (atSite others map site)) (budget : Nat)
    (visiting : List PrimPath) (map : NamespaceMap) (path : PrimPath) :
    related (gatherWithin layers budget visiting map path)
      (gatherWithin others budget visiting map path) := by
  -- The recursion of gathering: the sites of a path first, then what its arcs lead to.
  induction budget generalizing visiting map path with
  | zero => exact hnil
  | succ budget ih =>
      by_cases hvisiting : path ∈ visiting
      · simpa only [gatherWithin, hvisiting, if_true] using hnil
      · have hdirect : related (direct layers map path) (direct others map path) := by
          show related ((localSites layers path).flatMap _) ((localSites others path).flatMap _)
          rw [h.local_sites_eq]
          exact flat_map_related hnil happend fun site _ => hsite map site
        simp only [gatherWithin, hvisiting, if_false, h.arcs_from_eq path]
        refine happend hdirect (flat_map_related hnil happend fun arc _ => ?_)
        cases path.relocate? arc.owner arc.source with
        | none => exact hnil
        | some source => exact ih _ _ source

theorem Alike.gather_related (h : Alike layers others)
    (hsite : ∀ map site, related (atSite layers map site) (atSite others map site))
    (path : PrimPath) : related (gather layers path) (gather others path) :=
  h.gather_within_related hnil happend hsite _ _ _ path

end Related

/-! ## A single change -/

section Change

variable {stage : Stage} {place : Nat} {site : PrimPath} {specifier : Specifier}
  {change : PrimSpec → PrimSpec}

/-- A change that leaves the branching of specs as it is leaves that of the stack as it is. -/
theorem Alike.of_changed
    (hchange : ∀ spec : PrimSpec, (change spec).branching = spec.branching) :
    Alike stage.layers (stage.changed place site specifier change).layers := by
  intro path
  apply List.ext_getElem
  · simp [Stage.changed]
  · intro index _ _
    simp only [Stage.changed, List.getElem_map, List.getElem_modify]
    split
    next => exact (Layer.branching_at_change_spec _ _ _ hchange path).symm
    next => rfl

/-- The first value of a field is as it was or a given one. -/
def KeepsOrGives {β : Type} (value : β) (before after : Option β) : Prop :=
  after = before ∨ after = some value

theorem KeepsOrGives.or {β : Type} {value : β} {before after more later : Option β}
    (h : KeepsOrGives value before after) (hmore : KeepsOrGives value more later) :
    KeepsOrGives value (before.or more) (after.or later) := by
  rcases h with rfl | rfl
  · cases after with
    | none => exact hmore
    | some found => exact .inl rfl
  · exact .inr rfl

/-- What the elements of a list give first is kept or the given value where this holds of a changed
element. -/
theorem keeps_or_gives_modify {α β : Type} {value : β} {give : α → Option β} {change : α → α}
    (h : ∀ element, KeepsOrGives value (give element) (give (change element))) (list : List α)
    (index : Nat) :
    KeepsOrGives value (list.findSome? give) ((list.modify index change).findSome? give) := by
  have hcons : ∀ head (rest : List α),
      (head :: rest).findSome? give = (give head).or (rest.findSome? give) := by
    intro head rest
    rw [List.findSome?_cons]
    cases give head <;> rfl
  induction list generalizing index with
  | nil => exact .inl (by rw [List.modify_nil])
  | cons head rest ih =>
      cases index with
      | zero =>
          rw [List.modify_zero_cons, hcons, hcons]
          exact (h head).or (.inl rfl)
      | succ index =>
          rw [List.modify_succ_cons, hcons, hcons]
          exact KeepsOrGives.or (.inl rfl) (ih index)

/-- After a change that leaves the branching of specs as it is, and a field of them but for a value
that it gives, the field on a prim is as it was or has that value. -/
theorem find_some_gather_changed {β : Type} (field : PrimSpec → Option β) (value : β)
    (hbranching : ∀ spec : PrimSpec, (change spec).branching = spec.branching)
    (hblank : ∀ specifier, field (.blank specifier) = none)
    (hspecifier : ∀ (spec : PrimSpec) specifier, field { spec with specifier } = field spec)
    (hchange : ∀ spec : PrimSpec, KeepsOrGives value (field spec) (field (change spec)))
    (path : PrimPath) :
    KeepsOrGives value ((gather stage.layers path).findSome? (field ·.spec))
      ((gather (stage.changed place site specifier change).layers path).findSome?
        (field ·.spec)) := by
  let related (before after : List Opinion) : Prop :=
    KeepsOrGives value (before.findSome? (field ·.spec)) (after.findSome? (field ·.spec))
  refine @Alike.gather_related _ _ related (.inl rfl) ?_ (.of_changed hbranching) ?_ path
  · intro first second more others hfirst hmore
    show KeepsOrGives value _ _
    rw [List.findSome?_append, List.findSome?_append]
    exact hfirst.or hmore
  intro map other
  -- The opinions at a site come one from each layer, and one layer is changed.
  have hlayers : ∀ layers : List Layer, (atSite layers map other).findSome? (field ·.spec) =
      layers.findSome? fun layer => (layer.spec? other).bind field := by
    intro layers
    rw [← Function.comp_def field, ← List.findSome?_map, map_spec_at_site, specsAt,
      ← List.head?_filterMap, List.filterMap_filterMap, List.head?_filterMap]
  show KeepsOrGives value _ _
  rw [hlayers, hlayers]
  refine keeps_or_gives_modify (fun layer => ?_) _ _
  rw [Layer.spec_change_spec]
  split
  next hsite =>
    subst hsite
    have hown := hchange { (layer.spec? other).getD (.blank specifier) with
      specifier := ((layer.spec? other).getD (.blank specifier)).specifier.join specifier }
    rw [hspecifier] at hown
    cases hspec : layer.spec? other with
    | none => simpa [hspec, hblank] using hown
    | some own => simpa [hspec] using hown
  next => exact .inl rfl

end Change

end Opinion

end LayeredShading
