import LayeredShading.Proofs.Composition.Extent
import LayeredShading.Proofs.Composition.SingleArc
import LayeredShading.Proofs.Stage.Editing
import Mathlib.Data.List.Forall2

/-!
# Stacks that are extended

Where the same selections count in two stacks, and the specs of one have the arcs and variants of
those of the other (`Opinion.Kept`), every site and every arc of the other is there, so what its
opinions have is still gathered (`Kept.exists_mem_gather`). Specs can be added to a stack, and
references and variants to its specs: as long as no selection begins to count
(`Opinion.Extended`), what it had is kept, and prims that compose still do.
-/

namespace LayeredShading

/-! ## Specs and layers -/

/-- A spec has at least the references and variants of another one, and specializes the same. -/
structure PrimSpec.KeptBy (spec more : PrimSpec) : Prop where
  references_subset : spec.references ⊆ more.references
  specializes_eq : more.specializes = spec.specializes
  declares : ∀ choice, spec.declares choice = true → more.declares choice = true

/-- Arcs and variant sets that are the same are kept. -/
theorem PrimSpec.KeptBy.of_eq {spec more : PrimSpec}
    (hreferences : more.references = spec.references)
    (hspecializes : more.specializes = spec.specializes)
    (hsets : more.variantSets = spec.variantSets) : spec.KeptBy more where
  references_subset := hreferences ▸ List.Subset.refl _
  specializes_eq := hspecializes
  declares choice hchoice := by rwa [PrimSpec.declares, hsets]

/-- A spec keeps the arcs and variants of another one, and selects the same. -/
structure PrimSpec.ExtendedBy (spec more : PrimSpec) : Prop extends spec.KeptBy more where
  selection_eq : more.variantSelection = spec.variantSelection

theorem PrimSpec.ExtendedBy.trans {first second third : PrimSpec} (h : first.ExtendedBy second)
    (hnext : second.ExtendedBy third) : first.ExtendedBy third where
  references_subset := List.Subset.trans h.references_subset hnext.references_subset
  specializes_eq := hnext.specializes_eq.trans h.specializes_eq
  selection_eq := hnext.selection_eq.trans h.selection_eq
  declares choice hchoice := hnext.declares choice (h.declares choice hchoice)

/-- A spec is extended by one with the same arcs, variant sets and selections. -/
theorem PrimSpec.ExtendedBy.of_eq {spec more : PrimSpec}
    (hreferences : more.references = spec.references)
    (hspecializes : more.specializes = spec.specializes)
    (hsets : more.variantSets = spec.variantSets)
    (hselection : more.variantSelection = spec.variantSelection) : spec.ExtendedBy more :=
  ⟨.of_eq hreferences hspecializes hsets, hselection⟩

namespace Layer

/-- The spec at a path, or a blank one where there is none. -/
def specOrBlank (layer : Layer) (path : PrimPath) : PrimSpec :=
  (layer.spec? path).getD (.blank .override)

/-- What the specs of a layer say of arcs and variants is kept in another one. -/
def KeptBy (layer more : Layer) : Prop :=
  ∀ path, (layer.specOrBlank path).KeptBy (more.specOrBlank path)

/-- All specs of a layer are in another one, extended, and what that one has besides specializes and
selects nothing. -/
structure ExtendedBy (layer more : Layer) : Prop where
  authored : ∀ path, (layer.spec? path).isSome = true → (more.spec? path).isSome = true
  spec : ∀ path, (layer.specOrBlank path).ExtendedBy (more.specOrBlank path)

theorem ExtendedBy.refl (layer : Layer) : layer.ExtendedBy layer :=
  ⟨fun _ => id, fun _ => .of_eq rfl rfl rfl rfl⟩

theorem ExtendedBy.trans {first second third : Layer} (h : first.ExtendedBy second)
    (hnext : second.ExtendedBy third) : first.ExtendedBy third :=
  ⟨fun path => hnext.authored path ∘ h.authored path,
    fun path => (h.spec path).trans (hnext.spec path)⟩

/-- A layer is extended when a spec of it is changed into one that extends it. -/
theorem extended_by_change_spec (layer : Layer) (site : PrimPath) (specifier : Specifier)
    {change : PrimSpec → PrimSpec} (hchange : ∀ spec : PrimSpec, spec.ExtendedBy (change spec)) :
    layer.ExtendedBy (layer.changeSpec site specifier change) := by
  refine ⟨fun path => ?_, fun path => ?_⟩
  · rw [spec_change_spec]
    split
    next => exact fun _ => rfl
    next => exact id
  · rw [specOrBlank, specOrBlank, spec_change_spec]
    split
    next hpath =>
      subst hpath
      -- whether a blank spec defines its prim does not matter here
      have hown : ∀ own : PrimSpec, own = (layer.spec? path).getD (.blank specifier) →
          ((layer.spec? path).getD (.blank .override)).ExtendedBy
            { own with specifier := own.specifier.join specifier } := by
        rintro own rfl
        cases layer.spec? path <;> exact .of_eq rfl rfl rfl rfl
      exact (hown _ rfl).trans (hchange _)
    next => exact .of_eq rfl rfl rfl rfl

end Layer

namespace Opinion

/-! ## Stacks -/

/-- The variants that the specs of a prim select, whether or not they are declared. -/
def selectedAt (layers : List Layer) (prim : PrimPath) : List VariantChoice :=
  (specsAt layers prim).foldl withSelections []

/-- Some spec of a prim declares a variant. -/
def DeclaredAt (layers : List Layer) (prim : PrimPath) (choice : VariantChoice) : Prop :=
  ∃ spec ∈ specsAt layers prim, spec.declares choice = true

variable {layers others : List Layer}

/-- The specs at a path are those of the layers that have one, and only blank ones are missing. -/
theorem filter_map_specs_at {β : Type} (field : PrimSpec → Option β)
    (hblank : field (.blank .override) = none) (site : PrimPath) :
    (specsAt layers site).filterMap field =
      layers.filterMap fun layer => field (layer.specOrBlank site) := by
  rw [specsAt, List.filterMap_filterMap]
  congr 1
  funext layer
  rw [Layer.specOrBlank]
  cases layer.spec? site <;> simp [hblank]

/-- What one of the specs at a path has, one of the layers has there. -/
theorem exists_mem_specs_at_iff (holds : PrimSpec → Prop) (hblank : ¬ holds (.blank .override))
    {site : PrimPath} : (∃ spec ∈ specsAt layers site, holds spec) ↔
      ∃ layer ∈ layers, holds (layer.specOrBlank site) := by
  simp only [specsAt, List.mem_filterMap]
  constructor
  · rintro ⟨spec, ⟨layer, hlayer, hspec⟩, hholds⟩
    exact ⟨layer, hlayer, by simpa [Layer.specOrBlank, hspec] using hholds⟩
  · rintro ⟨layer, hlayer, hholds⟩
    rw [Layer.specOrBlank] at hholds
    cases hspec : layer.spec? site with
    | none => simp [hspec, hblank] at hholds
    | some spec => exact ⟨spec, ⟨layer, hlayer, hspec⟩, by simpa [hspec] using hholds⟩

theorem selected_at_eq (prim : PrimPath) :
    selectedAt layers prim =
      (layers.map fun layer => layer.specOrBlank prim).foldl withSelections [] := by
  have hfold : ∀ selected, (specsAt layers prim).foldl withSelections selected =
      (layers.map fun layer => layer.specOrBlank prim).foldl withSelections selected := by
    induction layers with
    | nil => exact fun _ => rfl
    | cons layer rest ih =>
        intro selected
        rw [specsAt] at ih ⊢
        rw [List.filterMap_cons, List.map_cons, List.foldl_cons, Layer.specOrBlank]
        cases layer.spec? prim with
        | some spec => exact ih _
        | none =>
            refine (ih selected).trans ?_
            simp [withSelections, PrimSpec.blank, SortedMap.empty]
  exact hfold []

/-- The strongest spec that selects a variant in a set decides. -/
theorem mem_selected_at_iff {prim : PrimPath} {choice : VariantChoice} :
    choice ∈ selectedAt layers prim ↔
      (specsAt layers prim).findSome? (·.variantSelection.get? choice.set) =
        some choice.variant := by
  simp [selectedAt, mem_foldl_with_selections_iff]

theorem mem_choices_at_iff {prim : PrimPath} {choice : VariantChoice} :
    choice ∈ choicesAt layers prim ↔
      choice ∈ selectedAt layers prim ∧ DeclaredAt layers prim choice := by
  rw [choices_at_eq, List.mem_filter, List.any_eq_true]
  exact Iff.rfl

theorem exists_of_forall₂ {α β : Type} {related : α → β → Prop} {list : List α}
    {images : List β} (h : List.Forall₂ related list images) {element : α}
    (hmem : element ∈ list) : ∃ image ∈ images, related element image := by
  induction h with
  | nil => cases hmem
  | cons hhead _ ih =>
      rcases List.mem_cons.mp hmem with rfl | hmem
      · exact ⟨_, List.mem_cons_self, hhead⟩
      · obtain ⟨image, himage, hrelated⟩ := ih hmem
        exact ⟨image, List.mem_cons_of_mem _ himage, hrelated⟩

theorem forall₂_trans {α : Type} {related : α → α → Prop}
    (htrans : ∀ first second third, related first second → related second third →
      related first third) {first second third : List α}
    (h : List.Forall₂ related first second) (hnext : List.Forall₂ related second third) :
    List.Forall₂ related first third := by
  induction h generalizing third with
  | nil => exact hnext
  | cons hhead _ ih =>
      cases hnext with
      | cons hother hmore => exact .cons (htrans _ _ _ hhead hother) (ih hmore)

/-! ## Stacks that keep arcs and variants -/

/-- What a spec at a path has and blank specs have not, one of the other stack has there. -/
theorem exists_mem_specs_at_of_kept (h : List.Forall₂ Layer.KeptBy layers others)
    (holds : PrimSpec → Prop) (hblank : ¬ holds (.blank .override))
    (hkept : ∀ spec more : PrimSpec, spec.KeptBy more → holds spec → holds more) {site : PrimPath}
    (hsite : ∃ spec ∈ specsAt layers site, holds spec) :
    ∃ more ∈ specsAt others site, holds more := by
  obtain ⟨layer, hlayer, hholds⟩ := (exists_mem_specs_at_iff holds hblank).mp hsite
  obtain ⟨other, hother, hkeeps⟩ := exists_of_forall₂ h hlayer
  exact (exists_mem_specs_at_iff holds hblank).mpr
    ⟨other, hother, hkept _ _ (hkeeps site) hholds⟩

/-- Declared variants are still declared. -/
theorem declared_at_of_kept (h : List.Forall₂ Layer.KeptBy layers others) {prim : PrimPath}
    {choice : VariantChoice} (hchoice : DeclaredAt layers prim choice) :
    DeclaredAt others prim choice :=
  exists_mem_specs_at_of_kept h (·.declares choice = true)
    (by simp [PrimSpec.declares, PrimSpec.blank]) (fun _ _ hkept => hkept.declares choice) hchoice

/-- The same selections count in both stacks, and layer by layer the arcs and variants of the first
one are kept. -/
structure Kept (layers others : List Layer) : Prop where
  each : List.Forall₂ Layer.KeptBy layers others
  choices_at_eq : ∀ prim, choicesAt others prim = choicesAt layers prim

namespace Kept

variable (h : Kept layers others)

include h

/-- Opinions stand at the same sites. -/
theorem local_sites_eq (path : PrimPath) : localSites others path = localSites layers path := by
  have hselections : selectionsOn others path = selectionsOn layers path := by
    apply List.flatMap_congr
    intro above _
    rw [h.choices_at_eq]
  rw [localSites, localSites, hselections]

theorem references_subset (prim : PrimPath) :
    references (specsOn layers prim) ⊆ references (specsOn others prim) := by
  intro source hsource
  simp only [references, mem_addAllNew, List.not_mem_nil, false_or, List.mem_flatMap, specsOn,
    h.local_sites_eq] at hsource ⊢
  obtain ⟨spec, ⟨site, hsite, hspec⟩, hsource⟩ := hsource
  obtain ⟨more, hmore, hmoreSource⟩ := exists_mem_specs_at_of_kept h.each
    (source ∈ ·.references) List.not_mem_nil
    (fun _ _ hkept hreference => hkept.references_subset hreference) ⟨spec, hspec, hsource⟩
  exact ⟨more, ⟨site, hsite, hmore⟩, hmoreSource⟩

theorem specialized_eq (prim : PrimPath) :
    specialized (specsOn others prim) = specialized (specsOn layers prim) := by
  have hsite : ∀ site, (specsAt others site).filterMap (·.specializes) =
      (specsAt layers site).filterMap (·.specializes) := by
    intro site
    rw [filter_map_specs_at _ rfl, filter_map_specs_at _ rfl]
    have hlayers := h.each
    clear h
    induction hlayers with
    | nil => rfl
    | cons hlayer _ ih =>
        rw [List.filterMap_cons, List.filterMap_cons, (hlayer site).specializes_eq, ih]
  have hspecs : (specsOn others prim).filterMap (·.specializes) =
      (specsOn layers prim).filterMap (·.specializes) := by
    rw [specsOn, specsOn, h.local_sites_eq, List.filterMap_flatMap, List.filterMap_flatMap]
    exact List.flatMap_congr fun site _ => hsite site
  rw [specialized, specialized, ← List.head?_filterMap, ← List.head?_filterMap, hspecs]

/-- Every arc is still there. -/
theorem arcs_from_subset (path : PrimPath) : arcsFrom layers path ⊆ arcsFrom others path := by
  intro arc harc
  rw [arcs_from_eq, List.mem_append, List.mem_flatMap, List.mem_flatMap] at harc ⊢
  refine harc.imp ?_ ?_
  · rintro ⟨owner, howner, harc⟩
    refine ⟨owner, howner, ?_⟩
    simp only [ownArcs, List.mem_map, List.mem_filter] at harc ⊢
    obtain ⟨source, ⟨hsource, hapart⟩, rfl⟩ := harc
    exact ⟨source, ⟨h.references_subset owner hsource, hapart⟩, rfl⟩
  · rintro ⟨owner, howner, harc⟩
    refine ⟨owner, howner, ?_⟩
    rwa [ownArcs, h.specialized_eq]

/-- Every chain of arcs is still there. -/
theorem arc_chain {chain : List PrimPath} (hchain : ArcChain layers chain) :
    ArcChain others chain := by
  refine ⟨hchain.linked.imp ?_, hchain.distinct⟩
  rintro path source ⟨arc, harc, hmoved⟩
  exact ⟨arc, h.arcs_from_subset path harc, hmoved⟩

/-- What an opinion on a prim has and blank specs have not, one that is gathered in the other stack
has. -/
theorem exists_mem_gather (holds : PrimSpec → Prop) (hblank : ¬ holds (.blank .override))
    (hkept : ∀ spec more : PrimSpec, spec.KeptBy more → holds spec → holds more) {path : PrimPath}
    (hpath : ∃ opinion ∈ gather layers path, holds opinion.spec) :
    ∃ other ∈ gather others path, holds other.spec := by
  obtain ⟨opinion, hopinion, hholds⟩ := hpath
  obtain ⟨rest, hchain, hlength, havoid, hstands⟩ :=
    exists_mem_gather_within_iff.mp ⟨opinion, hopinion, rfl, rfl⟩
  obtain ⟨hlayer, hspec⟩ := authored_of_mem_gather hopinion
  have hown : opinion.spec ∈ specsAt layers opinion.site :=
    List.mem_filterMap.mpr ⟨opinion.layer, hlayer, hspec⟩
  obtain ⟨more, hmore, hholdsMore⟩ :=
    exists_mem_specs_at_of_kept h.each holds hblank hkept ⟨opinion.spec, hown, hholds⟩
  obtain ⟨layer, hlayer, hmore⟩ := List.mem_filterMap.mp hmore
  obtain ⟨other, hother, rfl, hsite⟩ : ∃ other ∈ gather others path,
      other.layer = layer ∧ other.site = opinion.site := by
    refine exists_mem_gather_within_iff.mpr ⟨rest, h.arc_chain hchain, hlength, havoid, hlayer, ?_,
      Option.isSome_of_eq_some hmore⟩
    rw [h.local_sites_eq]
    exact hstands.site_mem
  obtain ⟨-, hauthored⟩ := authored_of_mem_gather hother
  rw [hsite, hmore] at hauthored
  exact ⟨other, hother, Option.some.inj hauthored ▸ hholdsMore⟩

end Kept

/-! ## Stacks that are extended -/

/-- All layers of a stack are extended, and every selection that counts then has counted before. -/
structure Extended (layers others : List Layer) : Prop where
  each : List.Forall₂ Layer.ExtendedBy layers others
  declared : ∀ prim, ∀ choice ∈ selectedAt layers prim,
    DeclaredAt others prim choice → DeclaredAt layers prim choice

namespace Extended

/-- A stack is extended by itself. -/
theorem refl (layers : List Layer) : Extended layers layers :=
  ⟨List.forall₂_same.mpr fun layer _ => .refl layer, fun _ _ _ => id⟩

variable (h : Extended layers others)

include h

theorem selected_at_eq (prim : PrimPath) : selectedAt others prim = selectedAt layers prim := by
  rw [Opinion.selected_at_eq, Opinion.selected_at_eq]
  have hfold : ∀ selected,
      (others.map fun layer => layer.specOrBlank prim).foldl withSelections selected =
        (layers.map fun layer => layer.specOrBlank prim).foldl withSelections selected := by
    have hlayers := h.each
    clear h
    induction hlayers with
    | nil => exact fun _ => rfl
    | cons hlayer _ ih =>
        intro selected
        simp only [List.map_cons, List.foldl_cons, withSelections, (hlayer.spec prim).selection_eq]
        exact ih _
  exact hfold []

theorem trans {third : List Layer} (hnext : Extended others third) : Extended layers third where
  each := forall₂_trans (fun _ _ _ => .trans) h.each hnext.each
  declared prim choice hchoice hdeclared := by
    refine h.declared prim choice hchoice (hnext.declared prim choice ?_ hdeclared)
    rwa [h.selected_at_eq]

/-- Arcs and variants are kept, and the same selections count. -/
theorem kept : Kept layers others := by
  have heach : List.Forall₂ Layer.KeptBy layers others :=
    h.each.imp fun _ _ hextended path => (hextended.spec path).toKeptBy
  refine ⟨heach, fun prim => ?_⟩
  have hselected : (specsAt others prim).foldl withSelections [] =
      (specsAt layers prim).foldl withSelections [] := h.selected_at_eq prim
  rw [choices_at_eq, choices_at_eq, hselected]
  apply List.filter_congr
  intro choice hchoice
  rw [Bool.eq_iff_iff, List.any_eq_true, List.any_eq_true]
  exact ⟨h.declared prim choice hchoice, declared_at_of_kept heach⟩

/-- Prims that compose still do. -/
theorem compose_is_some {path : PrimPath} (hpath : (compose layers path).isSome = true) :
    (compose others path).isSome = true := by
  obtain ⟨hroot, hplain, hgather⟩ := compose_is_some_iff.mp hpath
  obtain ⟨rest, layer, site, hchain, hlength, hstands⟩ := gather_ne_nil_iff.mp hgather
  obtain ⟨other, hother, hextended⟩ := exists_of_forall₂ h.each hstands.layer_mem
  refine compose_is_some_iff.mpr ⟨hroot, hplain, gather_ne_nil_iff.mpr
    ⟨rest, other, site, h.kept.arc_chain hchain, hlength, hother, ?_, ?_⟩⟩
  · rw [h.kept.local_sites_eq]
    exact hstands.site_mem
  · exact hextended.authored site hstands.authored

end Extended

/-! ## A single write -/

section Write

variable {stage : Stage} {place : Nat} {site : PrimPath} {specifier : Specifier}
  {change : PrimSpec → PrimSpec}

/-- A variant that is declared after a change of one spec was declared before, or the spec that
declares it has been made of one whose variants were. -/
theorem declared_at_of_changed {prim : PrimPath} {choice : VariantChoice}
    (h : DeclaredAt (stage.changed place site specifier change).layers prim choice) :
    DeclaredAt stage.layers prim choice ∨ prim = site ∧ ∃ own : PrimSpec,
      (own.declares choice = true → DeclaredAt stage.layers site choice) ∧
        (change own).declares choice = true := by
  obtain ⟨spec, hspec, hdeclares⟩ := h
  obtain ⟨index, hspec⟩ := Stage.mem_specs_at.mp hspec
  by_cases hplace : place < stage.layers.length
  · rw [Stage.spec_changed hplace] at hspec
    split at hspec
    next hhere =>
      refine .inr ⟨hhere.2, _, fun hown => ?_, Option.some.inj hspec ▸ hdeclares⟩
      cases hfound : stage.spec? place site with
      | none => simp [hfound, PrimSpec.declares, PrimSpec.blank] at hown
      | some own =>
          rw [hfound] at hown
          exact ⟨own, Stage.mem_specs_at.mpr ⟨place, hfound⟩, hown⟩
    next => exact .inl ⟨spec, Stage.mem_specs_at.mpr ⟨index, hspec⟩, hdeclares⟩
  · rw [Stage.changed, List.modify_eq_self (Nat.le_of_not_lt hplace)] at hspec
    exact .inl ⟨spec, Stage.mem_specs_at.mpr ⟨index, hspec⟩, hdeclares⟩

/-- After a change that declares nothing only that is declared which was. -/
theorem declared_at_of_changed_eq
    (hsets : ∀ spec : PrimSpec, (change spec).variantSets = spec.variantSets) {prim : PrimPath}
    {choice : VariantChoice}
    (h : DeclaredAt (stage.changed place site specifier change).layers prim choice) :
    DeclaredAt stage.layers prim choice := by
  rcases declared_at_of_changed h with hbefore | ⟨rfl, own, hown, hdeclares⟩
  · exact hbefore
  · exact hown (by rwa [PrimSpec.declares, hsets] at hdeclares)

/-- A change that declares nothing and withdraws nothing leaves it at what is declared. -/
theorem declared_at_changed_iff
    (hsets : ∀ spec : PrimSpec, (change spec).variantSets = spec.variantSets) {prim : PrimPath}
    {choice : VariantChoice} :
    DeclaredAt (stage.changed place site specifier change).layers prim choice ↔
      DeclaredAt stage.layers prim choice := by
  refine ⟨declared_at_of_changed_eq hsets, ?_⟩
  rintro ⟨spec, hspec, hdeclares⟩
  obtain ⟨index, hspec⟩ := Stage.mem_specs_at.mp hspec
  by_cases hplace : place < stage.layers.length
  · by_cases hhere : index = place ∧ prim = site
    · obtain ⟨rfl, rfl⟩ := hhere
      refine ⟨_, Stage.mem_specs_at.mpr ⟨index, (Stage.spec_changed hplace _ _).trans
        (if_pos ⟨rfl, rfl⟩)⟩, ?_⟩
      rw [PrimSpec.declares, hsets, hspec]
      exact hdeclares
    · refine ⟨spec, Stage.mem_specs_at.mpr ⟨index, ?_⟩, hdeclares⟩
      rwa [Stage.spec_changed hplace, if_neg hhere]
  · rw [Stage.changed, List.modify_eq_self (Nat.le_of_not_lt hplace)]
    exact ⟨spec, Stage.mem_specs_at.mpr ⟨index, hspec⟩, hdeclares⟩

/-- A change of one spec extends the stack if it extends the spec and no selection begins to
count. -/
theorem Extended.of_changed (hchange : ∀ spec : PrimSpec, spec.ExtendedBy (change spec))
    (hdeclared : ∀ choice ∈ selectedAt stage.layers site,
      DeclaredAt (stage.changed place site specifier change).layers site choice →
        DeclaredAt stage.layers site choice) :
    Extended stage.layers (stage.changed place site specifier change).layers where
  each := by
    refine List.forall₂_iff_get.mpr ⟨by simp [Stage.changed], fun index hindex _ => ?_⟩
    simp only [List.get_eq_getElem, Stage.changed, List.getElem_modify]
    split
    next => exact Layer.extended_by_change_spec _ _ _ hchange
    next => exact .refl _
  declared prim choice hselected hchoice := by
    rcases declared_at_of_changed hchoice with hbefore | ⟨rfl, -⟩
    · exact hbefore
    · exact hdeclared choice hselected hchoice

/-- A change that keeps the arcs, variant sets and selections of a spec extends the stack. -/
theorem Extended.of_changed_eq
    (hreferences : ∀ spec : PrimSpec, (change spec).references = spec.references)
    (hspecializes : ∀ spec : PrimSpec, (change spec).specializes = spec.specializes)
    (hsets : ∀ spec : PrimSpec, (change spec).variantSets = spec.variantSets)
    (hselection : ∀ spec : PrimSpec, (change spec).variantSelection = spec.variantSelection) :
    Extended stage.layers (stage.changed place site specifier change).layers :=
  .of_changed (fun spec => .of_eq (hreferences spec) (hspecializes spec) (hsets spec)
    (hselection spec)) fun _ _ => declared_at_of_changed_eq hsets

end Write

end Opinion

end LayeredShading
