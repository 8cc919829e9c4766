import LayeredShading.Proofs.Composition.Extent
import LayeredShading.Proofs.EditTarget
import LayeredShading.Proofs.SceneFile.Loading
import LayeredShading.Proofs.Stage.Authored

/-!
# Loading what was authored

What can be authored is regular, so the only thing that keeps a stage from being loaded from its
description are the checks of loading (`Stage.authored_loads_iff`). They look at more than the
checks of authoring, which know the scene of the moment: `Stage.hidden_opinions_refused` has stages
that are refused for what an unselected variant says.
-/

namespace LayeredShading

/-! ## Regular specs -/

namespace PrimSpec

variable {spec : PrimSpec} {name : String} {change : AttributeSpec → AttributeSpec}

theorem Regular.blank (specifier : Specifier) : (PrimSpec.blank specifier).Regular :=
  ⟨nofun, .nil⟩

/-- A spec whose attributes and metadata are those of a regular one is regular. -/
theorem Regular.of_eq (h : spec.Regular) {other : PrimSpec}
    (hattributes : other.attributes = spec.attributes)
    (hmetadata : other.metadata = spec.metadata) : other.Regular :=
  ⟨hattributes ▸ h.names, hmetadata ▸ h.metadata⟩

theorem Regular.change_attribute (h : spec.Regular) (hname : isPropertyName name = true)
    (declared : AttributeSpec) : (spec.changeAttribute name declared change).Regular := by
  refine ⟨fun other hother => ?_, h.metadata⟩
  obtain ⟨value, hvalue⟩ := SortedMap.mem_keys_iff.mp hother
  rw [changeAttribute, SortedMap.get?_update] at hvalue
  split at hvalue
  next hsame => rwa [hsame]
  next => exact h.names other (SortedMap.mem_keys_iff.mpr ⟨value, hvalue⟩)

theorem Regular.change_own_attribute (h : spec.Regular) :
    (spec.changeOwnAttribute name change).Regular := by
  refine ⟨fun other hother => ?_, h.metadata⟩
  obtain ⟨value, hvalue⟩ := SortedMap.mem_keys_iff.mp hother
  refine h.names other (SortedMap.mem_keys_iff.mpr ?_)
  rw [changeOwnAttribute, SortedMap.get?_modify] at hvalue
  split at hvalue
  next hsame =>
    obtain ⟨own, hown, -⟩ := Option.map_eq_some_iff.mp hvalue
    exact ⟨own, hsame ▸ hown⟩
  next => exact ⟨value, hvalue⟩

end PrimSpec

namespace Operation

variable {operation : Operation} {stage : Stage} {path : PrimPath} {specifier : Specifier}
  {change : PrimSpec → PrimSpec}

/-- An operation makes specs of prims of the scene only. -/
theorem Makes.scene_path (h : operation.Makes stage path specifier change) :
    path.isRoot = false ∧ path.hasChoices = false := by
  have hexists : ∀ {prim : PrimPath}, stage.hasPrim prim = true →
      prim.isRoot = false ∧ prim.hasChoices = false := by
    intro prim hprim
    obtain ⟨hroot, hplain, -⟩ := compose_is_some_iff.mp hprim
    exact ⟨hroot, hplain⟩
  have hdeclared : ∀ {path : PropertyPath} {composed : ComposedAttribute},
      stage.attribute? path = some composed →
        path.prim.isRoot = false ∧ path.prim.hasChoices = false := by
    intro path composed hattribute
    obtain ⟨prim, hprim, -⟩ := Option.bind_eq_some_iff.mp hattribute
    exact hexists (Option.isSome_of_eq_some hprim)
  cases h with
  | definePrim hpath => exact PrimPath.require_scene_path_eq_ok_iff.mp hpath
  | defineAbove hpath habove _ =>
      obtain ⟨-, hplain⟩ := PrimPath.require_scene_path_eq_ok_iff.mp hpath
      obtain ⟨hpos, rest, rfl⟩ := PrimPath.mem_ancestry_iff.mp (List.dropLast_subset _ habove)
      rw [PrimPath.has_choices_append, Bool.or_eq_false_iff] at hplain
      exact ⟨PrimPath.is_root_eq_false_iff.mpr hpos, hplain.1⟩
  | setDefault hattribute _ | setConnections hattribute _ | addConnection hattribute _ =>
      exact hdeclared hattribute
  | overridePrim _ hprim | createAttribute hprim _ | addReference _ hprim
  | setSpecializes _ hprim | addVariantSet _ hprim | addVariant _ _ hprim => exact hexists hprim
  | @selectVariant path choice hvariant =>
      refine hexists ?_
      by_contra hprim
      have hnone : stage.prim? path = none := by simpa [Stage.hasPrim] using hprim
      simp [VariantSet.hasVariant, VariantSet.find?, hnone] at hvariant

/-- An operation makes a regular spec of a regular one. -/
theorem Makes.regular (h : operation.Makes stage path specifier change) (hproper : operation.Proper)
    {spec : PrimSpec} (hspec : spec.Regular) : (change spec).Regular := by
  cases h with
  | createAttribute | setDefault | setConnections | addConnection =>
      exact hspec.change_attribute (hproper _ rfl) _
  | _ => exact hspec.of_eq rfl rfl

theorem Amends.regular (h : operation.Amends path change) {spec : PrimSpec}
    (hspec : spec.Regular) : (change spec).Regular := by
  cases h with
  | clearDefault | clearConnections => exact hspec.change_own_attribute
  | clearSpecializes | clearSelection => exact hspec.of_eq rfl rfl

end Operation

/-! ## Regular stages -/

namespace Layer

variable {layer : Layer} {site : PrimPath} {change : PrimSpec → PrimSpec}

theorem Regular.change_spec (h : layer.Regular) (hsite : site.isRoot = false)
    (hchange : ∀ spec : PrimSpec, spec.Regular → (change spec).Regular) (specifier : Specifier) :
    (layer.changeSpec site specifier change).Regular := by
  have hown : ((layer.specs.get? site).getD (.blank specifier)).Regular := by
    cases hspec : layer.specs.get? site with
    | none => exact .blank specifier
    | some spec => exact (h (site, spec) (SortedMap.get?_eq_some_iff.mp hspec)).2
  rintro ⟨path, spec⟩ hmem
  have hspec := SortedMap.get?_eq_some_iff.mpr hmem
  rw [changeSpec, SortedMap.get?_update] at hspec
  split at hspec
  next hpath =>
    cases hspec
    exact ⟨hpath ▸ hsite, hchange _ (hown.of_eq rfl rfl)⟩
  next => exact h (path, spec) (SortedMap.get?_eq_some_iff.mp hspec)

theorem Regular.change_own_spec (h : layer.Regular)
    (hchange : ∀ spec : PrimSpec, spec.Regular → (change spec).Regular) :
    (layer.changeOwnSpec site change).Regular := by
  rintro ⟨path, spec⟩ hmem
  have hspec := SortedMap.get?_eq_some_iff.mpr hmem
  rw [changeOwnSpec, SortedMap.get?_modify] at hspec
  split at hspec
  next hpath =>
    obtain ⟨own, hown, rfl⟩ := Option.map_eq_some_iff.mp hspec
    obtain ⟨hroot, hregular⟩ := h (site, own) (SortedMap.get?_eq_some_iff.mp hown)
    exact ⟨hpath ▸ hroot, hchange own hregular⟩
  next => exact h (path, spec) (SortedMap.get?_eq_some_iff.mp hspec)

end Layer

namespace Stage

variable {stage : Stage}

theorem regular_blank : blank.Regular := by
  refine ⟨List.cons_ne_nil _ _, ?_⟩
  intro layer hlayer
  obtain rfl := List.mem_singleton.mp hlayer
  exact nofun

/-- A stage stays regular if one of its layers is changed into a regular one. -/
theorem Regular.modify (h : stage.Regular) (place : Nat) {write : Layer → Layer}
    (hwrite : ∀ layer : Layer, layer.Regular → (write layer).Regular) :
    ({ stage with layers := stage.layers.modify place write } : Stage).Regular := by
  refine ⟨?_, fun layer hlayer => ?_⟩
  · rw [← List.length_pos_iff, List.length_modify, List.length_pos_iff]
    exact h.layers_ne_nil
  · obtain ⟨index, hindex, rfl⟩ := List.mem_iff_getElem.mp hlayer
    rw [List.length_modify] at hindex
    have hregular := h.layers _ (List.getElem_mem hindex)
    rw [List.getElem_modify]
    split
    next => exact hwrite _ hregular
    next => exact hregular

/-- A write keeps a stage regular. -/
theorem Regular.of_writes {operation : Operation} {later : Stage} (h : stage.Regular)
    (hproper : operation.Proper) (hwrites : operation.Writes stage later) : later.Regular := by
  cases hwrites with
  | @made path specifier change hmakes _ =>
      have hsite : (stage.target.specPath path).isRoot = false := by
        rw [PrimPath.is_root_eq_false_iff, EditTarget.depth_spec_path,
          ← PrimPath.is_root_eq_false_iff]
        exact hmakes.scene_path.1
      exact h.modify _ fun layer hlayer =>
        hlayer.change_spec hsite (fun spec => hmakes.regular hproper) specifier
  | amended hamends =>
      exact h.modify _ fun layer hlayer => hlayer.change_own_spec fun spec => hamends.regular

/-- Whatever is authored on a blank stage is regular. -/
theorem regular_of_authored {α : Type} {program : Edit α} (h : program.Authored) :
    (blank.after program).Regular := by
  refine h.kept Regular ?_ ?_ ?_ regular_blank
  · exact fun _ _ _ hproper hwrites hstage => hstage.of_writes hproper hwrites
  · intro stage identifier hstage
    refine ⟨List.append_ne_nil_of_left_ne_nil hstage.layers_ne_nil _, fun layer hlayer => ?_⟩
    rcases List.mem_append.mp hlayer with hlayer | hlayer
    · exact hstage.layers layer hlayer
    · obtain rfl := List.mem_singleton.mp hlayer
      exact nofun
  · intro stage target hstage
    rw [Edit.after_set_target]
    split
    next => exact ⟨hstage.layers_ne_nil, hstage.layers⟩
    next => exact hstage

/-! ## Loading -/

/-- What is authored on a blank stage is loaded from its description exactly if no chain of prims
that specs specialize, in whatever layers and variants, leads to the prim where it starts or to one
above or below it, and every selection names a variant that the composed prim declares. Then the
layers are the same, and otherwise the error names such a chain or selection. The defaults have to
be finite and of the types that their specs declare. -/
theorem authored_loads_iff {α : Type} {program : Edit α} (h : program.Authored)
    (hfit : (blank.after program).DefaultsFit) :
    ((∃ loaded, ofDescription (blank.after program).describe = .ok loaded) ↔
        SpecializesApart (blank.after program).layers ∧
          (blank.after program).SelectionsDeclared) ∧
      (∀ loaded, ofDescription (blank.after program).describe = .ok loaded →
        loaded.layers = (blank.after program).layers) ∧
      ∀ error, ofDescription (blank.after program).describe = .error error →
        Refusal (blank.after program) error := by
  have hregular := regular_of_authored h
  simp only [of_description_describe_eq_ok_iff hregular hfit]
  refine ⟨⟨?_, ?_⟩, ?_, fun error => refusal_of_of_description hregular hfit⟩
  · rintro ⟨loaded, hapart, hdeclared, -⟩
    exact ⟨hapart, hdeclared⟩
  · rintro ⟨hapart, hdeclared⟩
    exact ⟨_, hapart, hdeclared, rfl⟩
  · rintro loaded ⟨-, -, rfl⟩
    rfl

/-- A material with a base that has a number, and in a weaker layer a variant of it that holds a
shader. -/
def layeredLook : Edit Unit := do
  Material.define ⟨[.plain "Base"]⟩
  Edit.createAttribute ⟨⟨[.plain "Base"]⟩, "inputs:gain"⟩ .float false
  Edit.setDefault ⟨⟨[.plain "Base"]⟩, "inputs:gain"⟩ (.float ⟨false, 1056964608, by decide⟩)
  Material.define ⟨[.plain "Look"]⟩
  Material.setBase ⟨[.plain "Look"]⟩ ⟨[.plain "Base"]⟩
  Edit.addVariant ⟨[.plain "Look"]⟩ ⟨"look", "wood"⟩
  Edit.selectVariant ⟨[.plain "Look"]⟩ ⟨"look", "wood"⟩
  let layer ← Edit.addSublayer "details"
  Edit.setTarget ((EditTarget.ofLayer layer).redirect ⟨[.plain "Look"]⟩ ⟨"look", "wood"⟩)
  Shader.define ⟨[.plain "Look", .plain "shader"]⟩

/-- It is authored and loaded again with the same layers. -/
theorem layered_look_loads :
    (layeredLook.run' .blank).isSome = true ∧ (blank.after layeredLook).DefaultsFit ∧
      ∃ loaded, ofDescription (blank.after layeredLook).describe = .ok loaded ∧
        loaded.layers = (blank.after layeredLook).layers := by
  have hauthored : layeredLook.Authored :=
    .bind_any (Material.authored_define _) fun _ =>
    .bind_any (.createAttribute (by decide) _ _) fun _ =>
    .bind_any (.setDefault (by decide) _) fun _ =>
    .bind_any (Material.authored_define _) fun _ =>
    .bind_any (Material.authored_set_base _ _) fun _ =>
    .bind_any (.of_no_attribute (.addVariant _ _) rfl) fun _ =>
    .bind_any (.of_no_attribute (.selectVariant _ _) rfl) fun _ =>
    .bind_any (.addSublayer _) fun _ =>
    .bind_any (.setTarget _) fun _ => Shader.authored_define _
  have hfit : (blank.after layeredLook).DefaultsFit := by decide
  obtain ⟨hiff, hsame, -⟩ := authored_loads_iff hauthored hfit
  obtain ⟨loaded, hloaded⟩ := hiff.mpr
    ⟨check_specializes_eq_ok_iff.mp (by decide), check_selections_eq_ok_iff.mp (by decide)⟩
  exact ⟨by decide, hfit, loaded, hloaded, hsame loaded hloaded⟩

/-- A base that is set within a variant, and when the variant is not selected any more a base that
leads the other way. -/
def hiddenBase : Edit Unit := do
  Material.define ⟨[.plain "A"]⟩
  Material.define ⟨[.plain "B"]⟩
  Edit.addVariant ⟨[.plain "A"]⟩ ⟨"look", "x"⟩
  Edit.selectVariant ⟨[.plain "A"]⟩ ⟨"look", "x"⟩
  EditScope.during ⟨[.plain "A"]⟩ ⟨"look", "x"⟩ none
    (Material.setBase ⟨[.plain "A"]⟩ ⟨[.plain "B"]⟩)
  Edit.clearSelection ⟨[.plain "A"]⟩ "look"
  Material.setBase ⟨[.plain "B"]⟩ ⟨[.plain "A"]⟩

/-- A variant set that is declared within a variant, a selection in it, and then the outer variant
is not selected any more. -/
def hiddenSet : Edit Unit := do
  Material.define ⟨[.plain "M"]⟩
  Edit.addVariant ⟨[.plain "M"]⟩ ⟨"look", "x"⟩
  Edit.selectVariant ⟨[.plain "M"]⟩ ⟨"look", "x"⟩
  EditScope.during ⟨[.plain "M"]⟩ ⟨"look", "x"⟩ none
    (Edit.addVariant ⟨[.plain "M"]⟩ ⟨"inner", "a"⟩)
  Edit.selectVariant ⟨[.plain "M"]⟩ ⟨"inner", "a"⟩
  Edit.clearSelection ⟨[.plain "M"]⟩ "look"

/-- Both are authored without an error, and neither stage is loaded from its description. -/
theorem hidden_opinions_refused :
    (hiddenBase.Authored ∧ (hiddenBase.run' .blank).isSome = true ∧
      (blank.after hiddenBase).DefaultsFit ∧
      ∀ loaded, ofDescription (blank.after hiddenBase).describe ≠ .ok loaded) ∧
    hiddenSet.Authored ∧ (hiddenSet.run' .blank).isSome = true ∧
      (blank.after hiddenSet).DefaultsFit ∧
      ofDescription (blank.after hiddenSet).describe =
        .error (.unknownVariantSet "/M" "inner") := by
  refine ⟨⟨?_, by decide, by decide, ?_⟩, ?_, by decide, by decide, by decide⟩
  · exact .bind_any (Material.authored_define _) fun _ =>
      .bind_any (Material.authored_define _) fun _ =>
      .bind_any (.of_no_attribute (.addVariant _ _) rfl) fun _ =>
      .bind_any (.of_no_attribute (.selectVariant _ _) rfl) fun _ =>
      .bind_any (EditScope.authored_during (Material.authored_set_base _ _) _ _ _) fun _ =>
      .bind_any (.of_no_attribute (.clearSelection _ _) rfl) fun _ =>
      Material.authored_set_base _ _
  · intro loaded hloaded
    have hrefused : (ofDescription (blank.after hiddenBase).describe).toOption = none := by decide
    simp [hloaded, Except.toOption] at hrefused
  · exact .bind_any (Material.authored_define _) fun _ =>
      .bind_any (.of_no_attribute (.addVariant _ _) rfl) fun _ =>
      .bind_any (.of_no_attribute (.selectVariant _ _) rfl) fun _ =>
      .bind_any (EditScope.authored_during (.of_no_attribute (.addVariant _ _) rfl) _ _ _) fun _ =>
      .bind_any (.of_no_attribute (.selectVariant _ _) rfl) fun _ =>
      .of_no_attribute (.clearSelection _ _) rfl

end Stage

end LayeredShading
