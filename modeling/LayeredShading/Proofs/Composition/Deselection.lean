import LayeredShading.Proofs.Composition.Extension
import LayeredShading.Proofs.Composition.Hidden

/-!
# Selections that do not count

A selection counts if a spec of the prim itself declares its variant. Two stacks with the same specs
apart from what is selected in one variant set of a prim (`Layer.SameBut`) have the same arcs and
declare the same variants if no selection in that set counts in either of them
(`Opinion.kept_of_same_but`). `Stage.deselected` is the stage in which nothing is selected in the
set.
-/

namespace LayeredShading

/-! ## Specs and layers -/

/-- A spec without a selection in a variant set. -/
def PrimSpec.deselect (set : String) (spec : PrimSpec) : PrimSpec :=
  { spec with variantSelection := spec.variantSelection.erase set }

namespace PrimSpec

variable (spec : PrimSpec) (set : String)

/-- A selection is taken away once and for all. -/
theorem deselect_deselect : (spec.deselect set).deselect set = spec.deselect set := by
  have hselection : (spec.variantSelection.erase set).erase set =
      spec.variantSelection.erase set := by
    apply SortedMap.ext_get?
    intro other
    simp only [SortedMap.get?_erase]
    split <;> rfl
  rw [deselect, deselect, hselection]

/-- A selection that is put in and taken away leaves no trace. -/
theorem deselect_insert (variant : String) :
    PrimSpec.deselect set { spec with
      variantSelection := spec.variantSelection.insert set variant } = spec.deselect set := by
  have hselection : (spec.variantSelection.insert set variant).erase set =
      spec.variantSelection.erase set := by
    apply SortedMap.ext_get?
    intro other
    simp only [SortedMap.get?_erase, SortedMap.get?_insert]
    split <;> rfl
  rw [deselect, deselect, hselection]

end PrimSpec

/-- What is selected in one set has no part in arcs and variant sets. -/
theorem PrimSpec.KeptBy.of_deselect_eq {set : String} {spec more : PrimSpec}
    (h : more.deselect set = spec.deselect set) : spec.KeptBy more := by
  simp only [deselect, mk.injEq] at h
  obtain ⟨-, -, -, -, hreferences, hspecializes, hsets, -⟩ := h
  exact .of_eq hreferences hspecializes hsets

/-- Two layers have the same specs, apart from what they select in a variant set of a prim and from
a spec of the prim that says nothing else. -/
structure Layer.SameBut (prim : PrimPath) (set : String) (layer other : Layer) : Prop where
  agree_off : layer.AgreeOff (· = prim) other
  deselect_eq : (other.specOrBlank prim).deselect set = (layer.specOrBlank prim).deselect set

namespace Layer.SameBut

variable {prim : PrimPath} {set : String} {layer other : Layer}

theorem symm (h : layer.SameBut prim set other) : other.SameBut prim set layer :=
  ⟨fun path hpath => (h.agree_off path hpath).symm, h.deselect_eq.symm⟩

theorem trans {third : Layer} (h : layer.SameBut prim set other)
    (hnext : other.SameBut prim set third) : layer.SameBut prim set third :=
  ⟨fun path hpath => (h.agree_off path hpath).trans (hnext.agree_off path hpath),
    hnext.deselect_eq.trans h.deselect_eq⟩

theorem refl (layer : Layer) : layer.SameBut prim set layer := ⟨fun _ _ => rfl, rfl⟩

theorem kept_by (h : layer.SameBut prim set other) : layer.KeptBy other := by
  intro path
  by_cases hpath : path = prim
  · subst hpath
    exact .of_deselect_eq h.deselect_eq
  · rw [specOrBlank, specOrBlank, h.agree_off path hpath]
    exact .of_eq rfl rfl rfl

/-- Layers differ only in a selection in the set when it is taken away. -/
theorem change_own_spec (layer : Layer) (prim : PrimPath) (set : String) :
    layer.SameBut prim set (layer.changeOwnSpec prim (PrimSpec.deselect set)) := by
  have hspec : ∀ path, (layer.changeOwnSpec prim (PrimSpec.deselect set)).spec? path =
      if path = prim then (layer.spec? prim).map (PrimSpec.deselect set)
      else layer.spec? path := fun path => SortedMap.get?_modify layer.specs prim path _
  refine ⟨fun path hpath => ?_, ?_⟩
  · rw [hspec, if_neg hpath]
  · rw [specOrBlank, specOrBlank, hspec, if_pos rfl]
    cases layer.spec? prim with
    | none => rfl
    | some own => exact own.deselect_deselect set

/-- Layers differ only in a selection in the set when one is put into it. -/
theorem change_spec (layer : Layer) (prim : PrimPath) (choice : VariantChoice) :
    layer.SameBut prim choice.set (layer.changeSpec prim .override fun spec => { spec with
      variantSelection := spec.variantSelection.insert choice.set choice.variant }) := by
  refine ⟨fun path hpath => ?_, ?_⟩
  · rw [spec_change_spec, if_neg hpath]
  · rw [specOrBlank, specOrBlank, spec_change_spec, if_pos rfl]
    refine (PrimSpec.deselect_insert _ _ _).trans ?_
    rw [Specifier.join_override]

end Layer.SameBut

/-- The stage in which nothing is selected in a variant set of a prim. -/
def Stage.deselected (stage : Stage) (prim : PrimPath) (set : String) : Stage :=
  { stage with layers := stage.layers.map fun layer =>
      layer.changeOwnSpec prim (PrimSpec.deselect set) }

namespace Opinion

variable {layers others : List Layer} {prim : PrimPath} {set : String}

/-! ## Choices -/

/-- What a spec selects outside a set is what it selects without a selection in the set. -/
theorem filter_with_selections (set : String) (selected : List VariantChoice) (spec : PrimSpec) :
    (withSelections selected spec).filter (·.set != set) =
      withSelections (selected.filter (·.set != set)) (spec.deselect set) := by
  rw [withSelections, withSelections, List.filter_append, PrimSpec.deselect, SortedMap.erase]
  simp only [List.filter_map, List.filter_filter, Function.comp_def]
  congr 2
  apply List.filter_congr
  intro entry _
  -- whether another set is taken does not depend on the choices in this one
  by_cases hset : entry.1 = set
  · simp [hset]
  · have htaken : (selected.filter (·.set != set)).any (fun other => other.set == entry.1) =
        selected.any fun other => other.set == entry.1 := by
      rw [List.any_filter]
      congr 1
      funext other
      by_cases hother : other.set = entry.1 <;> simp [hother, hset]
    rw [htaken]
    simp [hset]

/-- The choices outside a set are those that are made without selections in the set. -/
theorem filter_foldl_with_selections (set : String) (specs : List PrimSpec)
    (selected : List VariantChoice) :
    (specs.foldl withSelections selected).filter (·.set != set) =
      (specs.map (·.deselect set)).foldl withSelections (selected.filter (·.set != set)) := by
  induction specs generalizing selected with
  | nil => rfl
  | cons spec rest ih =>
      rw [List.foldl_cons, ih, filter_with_selections]
      rfl

/-- No selection in a variant set of a prim counts. -/
def Unselected (layers : List Layer) (prim : PrimPath) (set : String) : Prop :=
  ∀ variant, ⟨set, variant⟩ ∉ choicesAt layers prim

/-- Where no selection in a set counts, the choices are those that are made without selections in
the set. -/
theorem choices_at_of_unselected (h : Unselected layers prim set) :
    choicesAt layers prim =
      ((layers.map fun layer => (layer.specOrBlank prim).deselect set).foldl withSelections
        []).filter fun choice => (specsAt layers prim).any fun spec => spec.declares choice := by
  have hothers : ∀ choice ∈ choicesAt layers prim, (choice.set != set) = true := by
    rintro ⟨own, variant⟩ hchoice
    rw [bne_iff_ne]
    rintro rfl
    exact h variant hchoice
  have hselected : (selectedAt layers prim).filter (·.set != set) =
      (layers.map fun layer => (layer.specOrBlank prim).deselect set).foldl withSelections [] := by
    rw [selected_at_eq, filter_foldl_with_selections, List.map_map]
    rfl
  rw [← List.filter_eq_self.mpr hothers, choices_at_eq, List.filter_comm, ← hselected]
  rfl

/-- The same choices are made where no selection in the set counts. -/
theorem choices_at_of_same_but (h : List.Forall₂ (Layer.SameBut prim set) layers others)
    (hlayers : Unselected layers prim set) (hothers : Unselected others prim set)
    (path : PrimPath) : choicesAt others path = choicesAt layers path := by
  by_cases hpath : path = prim
  · subst hpath
    have hspecs : (others.map fun layer => (layer.specOrBlank path).deselect set) =
        layers.map fun layer => (layer.specOrBlank path).deselect set := by
      clear hlayers hothers
      induction h with
      | nil => rfl
      | cons hlayer _ ih => rw [List.map_cons, List.map_cons, hlayer.deselect_eq, ih]
    rw [choices_at_of_unselected hlayers, choices_at_of_unselected hothers, hspecs]
    apply List.filter_congr
    intro choice _
    rw [Bool.eq_iff_iff, List.any_eq_true, List.any_eq_true]
    exact ⟨declared_at_of_kept (h.flip.imp fun _ _ hlayer => hlayer.symm.kept_by),
      declared_at_of_kept (h.imp fun _ _ hlayer => hlayer.kept_by)⟩
  · have hagree : List.Forall₂ (Layer.AgreeOff (· = prim)) layers others :=
      h.imp fun _ _ hlayer => hlayer.agree_off
    rw [choicesAt, choicesAt, specs_at_eq_of_agree_off hagree hpath]

/-- Arcs and variants are kept when selections change in a set in which none counts. -/
theorem kept_of_same_but (h : List.Forall₂ (Layer.SameBut prim set) layers others)
    (hlayers : Unselected layers prim set) (hothers : Unselected others prim set) :
    Kept layers others :=
  ⟨h.imp fun _ _ hlayer => hlayer.kept_by, choices_at_of_same_but h hlayers hothers⟩

end Opinion

end LayeredShading
