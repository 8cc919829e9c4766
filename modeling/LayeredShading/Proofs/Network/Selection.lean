import LayeredShading.Proofs.Composition.Deselection
import LayeredShading.Proofs.Composition.SourceOverlay
import LayeredShading.Proofs.Network.VariantEdits
import LayeredShading.Proofs.Network.VariantSets
import LayeredShading.Proofs.SceneFile.Reload

/-!
# Selecting a variant

A selection that is written to the first layer is the strongest one of its prim, so no other variant
of its set contributes any more (`Opinion.not_variant_shows`), and it is reported as long as the
prim declares its variant without what the set selected before (`Stage.has_variant_selecting`).
The specs within the variant contribute exactly if a spec of the prim itself declares it:
composition does not look for the declaration in variants and behind arcs.
`Stage.selection_takes_effect` says so of whatever is authored, and `Stage.buried_selection_dropped`
has a selection of a variant that only the variant selected before declares.
-/

namespace LayeredShading

open Opinion

/-! ## Arcs of what is authored -/

/-- The spec authors no arc to a path with choices. -/
def PrimSpec.ArcsPlain (spec : PrimSpec) : Prop :=
  ∀ target ∈ spec.arcTargets, target.hasChoices = false

namespace Operation

variable {operation : Operation} {stage later : Stage} {path : PrimPath} {specifier : Specifier}
  {change : PrimSpec → PrimSpec} {spec : PrimSpec}

/-- An operation makes arcs only to paths without choices. -/
theorem Makes.arcs_plain (h : operation.Makes stage path specifier change)
    (hspec : spec.ArcsPlain) : (change spec).ArcsPlain := by
  cases h with
  | addReference hsource =>
      intro target htarget
      rcases List.mem_append.mp htarget with hreference | hspecialized
      · rcases mem_addNew.mp hreference with hreference | rfl
        · exact hspec target (List.mem_append_left _ hreference)
        · exact (PrimPath.require_scene_path_eq_ok_iff.mp hsource).2
      · exact hspec target (List.mem_append_right _ hspecialized)
  | setSpecializes hsources =>
      intro target htarget
      rcases List.mem_append.mp htarget with hreference | hspecialized
      · exact hspec target (List.mem_append_left _ hreference)
      · exact (PrimPath.require_scene_path_eq_ok_iff.mp (hsources target hspecialized)).2
  | _ => exact hspec

theorem Amends.arcs_plain (h : operation.Amends path change) (hspec : spec.ArcsPlain) :
    (change spec).ArcsPlain := by
  cases h with
  | clearSpecializes =>
      intro target htarget
      rcases List.mem_append.mp htarget with hreference | hspecialized
      · exact hspec target (List.mem_append_left _ hreference)
      · cases hspecialized
  | _ => exact hspec

/-- A write makes arcs only to paths without choices. -/
theorem Writes.arcs_plain (h : operation.Writes stage later) (hstage : ArcsPlain stage.layers) :
    ArcsPlain later.layers := by
  have hspecs := (@Stage.forall_entries_iff stage fun _ spec => spec.ArcsPlain).mp hstage
  refine (@Stage.forall_entries_iff later fun _ spec => spec.ArcsPlain).mpr ?_
  intro place path spec hspec
  rcases h.spec_cases place path with hsame | ⟨_, specifier, _, hmakes, -, hmade⟩ |
    ⟨_, _, hamends, -, hamended⟩
  · exact hspecs place path spec (hsame ▸ hspec)
  · obtain rfl := Option.some.inj (hmade.symm.trans hspec)
    refine hmakes.arcs_plain ?_
    cases hfound : stage.spec? place path with
    | none => exact nofun
    | some own => exact hspecs place path own hfound
  · rw [hamended] at hspec
    obtain ⟨own, hown, rfl⟩ := Option.map_eq_some_iff.mp hspec
    exact hamends.arcs_plain (hspecs place path own hown)

end Operation

/-- Whatever is authored leaves arcs only to paths without choices. -/
theorem Edit.Authored.arcs_plain {α : Type} {program : Edit α} (h : program.Authored)
    {stage : Stage} (hstage : ArcsPlain stage.layers) : ArcsPlain (stage.after program).layers := by
  refine h.kept (fun stage => ArcsPlain stage.layers) ?_ ?_ ?_ hstage
  · exact fun _ _ _ _ hwrites => hwrites.arcs_plain
  · intro stage identifier hstage layer hlayer
    rcases List.mem_append.mp hlayer with hlayer | hlayer
    · exact hstage layer hlayer
    · obtain rfl := List.mem_singleton.mp hlayer
      exact nofun
  · intro stage target hstage
    rw [Edit.after_set_target]
    split <;> exact hstage

/-- What is authored on a blank stage has arcs only to paths without choices. -/
theorem Stage.arcs_plain_of_authored {α : Type} {program : Edit α} (h : program.Authored) :
    ArcsPlain (blank.after program).layers := by
  refine h.arcs_plain fun layer hlayer => ?_
  obtain rfl := List.mem_singleton.mp hlayer
  exact nofun

/-! ## Specs within variants -/

namespace Opinion

variable {layers : List Layer} {prim path : PrimPath} {choice : VariantChoice}

/-- Chains of plain arcs lead from a plain path to a plain path. -/
theorem ArcChain.has_choices_last (harcs : ArcsPlain layers) {rest : List PrimPath}
    (hplain : path.hasChoices = false) (hchain : ArcChain layers (path :: rest)) :
    ((path :: rest).getLast (List.cons_ne_nil path rest)).hasChoices = false := by
  induction rest generalizing path with
  | nil => exact hplain
  | cons source rest ih =>
      rw [List.getLast_cons (List.cons_ne_nil source rest)]
      exact ih (hchain.step.has_choices_eq_false harcs hplain) hchain.tail

/-- A spec within a variant of a prim contributes to some prim. -/
def VariantShows (layers : List Layer) (prim : PrimPath) (choice : VariantChoice) : Prop :=
  ∃ path : PrimPath, path.hasChoices = false ∧
    ∃ opinion ∈ gather layers path, opinion.site.CarriesChoice prim choice

/-- Nothing within a variant that its prim does not choose contributes to any prim. -/
theorem not_variant_shows (harcs : ArcsPlain layers) (hpos : 0 < prim.depth)
    (hunselected : choice ∉ choicesAt layers prim) : ¬ VariantShows layers prim choice := by
  rintro ⟨path, hplain, opinion, hopinion, hcarries⟩
  obtain ⟨rest, hchain, -, -, hstands⟩ :=
    exists_mem_gather_within_iff.mp ⟨opinion, hopinion, rfl, rfl⟩
  exact (sites_visible_of_unselected hpos hunselected _ (hchain.has_choices_last harcs hplain)
    opinion.site hstands.site_mem).1 hcarries

/-- Every spec in a variant that its prim chooses contributes to the prim. -/
theorem exists_mem_gather_of_choice (hpos : 0 < prim.depth)
    (hchoice : choice ∈ choicesAt layers prim) {layer : Layer} (hlayer : layer ∈ layers)
    {spec : PrimSpec} (hspec : layer.spec? (prim.choose prim.depth choice) = some spec) :
    ∃ opinion ∈ gather layers prim, opinion.layer = layer ∧
      opinion.site = prim.choose prim.depth choice ∧ opinion.spec = spec := by
  have hself : prim ∈ prim.ancestry := PrimPath.mem_ancestry_iff.mpr ⟨hpos, [], by simp⟩
  have hselection : (prim.depth, choice) ∈ selectionsOn layers prim :=
    List.mem_flatMap.mpr ⟨prim, hself, List.mem_map_of_mem hchoice⟩
  exact exists_mem_gather_of_local_site
    (mem_local_sites.mpr (.inr ⟨_, _, hselection, Nat.le_refl _, rfl⟩)) hlayer hspec

/-- The spec of a prim in the first layer is the strongest of its specs, and of all opinions on the
prim. -/
theorem exists_cons_of_first {stage : Stage} {spec : PrimSpec}
    (h : stage.spec? 0 prim = some spec) :
    (∃ rest, specsAt stage.layers prim = spec :: rest) ∧
      ∃ opinion rest, gather stage.layers prim = opinion :: rest ∧ opinion.spec = spec := by
  obtain ⟨hplace, hspec⟩ := Stage.spec_eq_some_iff.mp h
  obtain ⟨first, others, hlayers⟩ := List.exists_cons_of_length_pos hplace
  simp only [hlayers, List.getElem_cons_zero] at hspec ⊢
  obtain ⟨weaker, hgather⟩ := gather_eq_cons_of_first hspec others
  exact ⟨⟨_, List.filterMap_cons_some hspec⟩, _, weaker, hgather, rfl⟩

end Opinion

/-! ## Selecting in the first layer -/

namespace Stage

/-- The stage in which the first layer selects a variant. -/
def selecting (stage : Stage) (prim : PrimPath) (choice : VariantChoice) : Stage :=
  stage.changed 0 prim .override fun spec => { spec with
    variantSelection := spec.variantSelection.insert choice.set choice.variant }

variable {stage later : Stage} {prim : PrimPath} {choice : VariantChoice}

/-- A selection in the first layer that succeeds is one of a declared variant, and it is all that
is written. -/
theorem selecting_of_run_select (htarget : stage.target = .ofLayer 0)
    (h : (Edit.selectVariant prim choice).run stage = .ok () later) :
    later = stage.selecting prim choice ∧ 0 < stage.layers.length ∧
      VariantSet.hasVariant stage prim choice = true ∧
      (Operation.selectVariant prim choice).Writes stage later := by
  obtain ⟨hvariant, hlayer, hlater⟩ := Edit.run_select_variant_eq_ok.mp h
  refine ⟨?_, ?_, hvariant, hlater ▸ .made (.selectVariant hvariant) hlayer⟩
  · rw [← hlater, htarget]
    rfl
  · rwa [htarget] at hlayer

/-- A selection declares nothing and withdraws nothing of what specs of prims declare. -/
theorem declared_at_selecting_iff {other : VariantChoice} :
    DeclaredAt (stage.selecting prim choice).layers prim other ↔
      DeclaredAt stage.layers prim other :=
  declared_at_changed_iff (by exact fun _ => rfl)

section Selecting

variable (hlayers : 0 < stage.layers.length)

include hlayers

/-- The spec that selects the variant is the strongest spec of the prim, and the strongest opinion
on it. -/
theorem exists_cons_of_selecting :
    ∃ own : PrimSpec, own.variantSelection.get? choice.set = some choice.variant ∧
      (∃ rest, specsAt (stage.selecting prim choice).layers prim = own :: rest) ∧
      ∃ opinion rest, gather (stage.selecting prim choice).layers prim = opinion :: rest ∧
        opinion.spec = own := by
  obtain ⟨own, hown, hselection⟩ : ∃ own, (stage.selecting prim choice).spec? 0 prim = some own ∧
      own.variantSelection.get? choice.set = some choice.variant := by
    rw [selecting, spec_changed hlayers, if_pos ⟨rfl, rfl⟩]
    exact ⟨_, rfl, by simp [SortedMap.get?_insert]⟩
  exact ⟨own, hselection, exists_cons_of_first hown⟩

/-- In its set, no other variant is selected then. -/
theorem selected_at_selecting_iff {variant : String} :
    ⟨choice.set, variant⟩ ∈ selectedAt (stage.selecting prim choice).layers prim ↔
      variant = choice.variant := by
  obtain ⟨own, hselection, ⟨rest, hspecs⟩, -⟩ :=
    @exists_cons_of_selecting stage prim choice hlayers
  rw [mem_selected_at_iff, hspecs, List.findSome?_cons, hselection]
  exact Option.some_inj.trans eq_comm

/-- The selection counts exactly if a spec of the prim declares its variant, and no other selection
in its set does. -/
theorem mem_choices_at_selecting_iff {variant : String} :
    ⟨choice.set, variant⟩ ∈ choicesAt (stage.selecting prim choice).layers prim ↔
      variant = choice.variant ∧ DeclaredAt stage.layers prim choice := by
  rw [mem_choices_at_iff, selected_at_selecting_iff hlayers, declared_at_selecting_iff]
  exact and_congr_right fun hvariant => by rw [hvariant]

end Selecting

/-- The stage with the selection differs only in that from the one without any in the set. -/
theorem same_but_of_selecting (stage : Stage) (prim : PrimPath) (choice : VariantChoice) :
    List.Forall₂ (Layer.SameBut prim choice.set) (stage.deselected prim choice.set).layers
      (stage.selecting prim choice).layers := by
  have hlength : (stage.deselected prim choice.set).layers.length =
      (stage.selecting prim choice).layers.length := by
    simp [deselected, selecting]
  refine List.forall₂_iff_get.mpr ⟨hlength, fun index _ _ => ?_⟩
  simp only [deselected, selecting, changed, List.get_eq_getElem, List.getElem_map,
    List.getElem_modify]
  refine (Layer.SameBut.change_own_spec _ _ _).symm.trans ?_
  split
  next => exact .change_spec _ _ _
  next => exact .refl _

/-- Nothing that is selected in a set counts where nothing is selected in it. -/
theorem unselected_of_deselected (stage : Stage) (prim : PrimPath) (set : String) :
    Unselected (stage.deselected prim set).layers prim set := by
  intro variant hchoice
  obtain ⟨spec, hspec, hselection⟩ := exists_selection_of_mem_choices_at hchoice
  obtain ⟨layer, hlayer, hspec⟩ := List.mem_filterMap.mp hspec
  obtain ⟨own, -, rfl⟩ := List.mem_map.mp hlayer
  rw [Layer.changeOwnSpec, Layer.spec?, SortedMap.get?_modify, if_pos rfl] at hspec
  obtain ⟨_, -, rfl⟩ := Option.map_eq_some_iff.mp hspec
  simp [PrimSpec.deselect, SortedMap.get?_erase] at hselection

/-- The prim declares the selected variant exactly if it does when nothing is selected in the
set. -/
theorem has_variant_selecting (hlayers : 0 < stage.layers.length) (hroot : prim.isRoot = false)
    (hplain : prim.hasChoices = false) :
    VariantSet.hasVariant (stage.selecting prim choice) prim choice =
      VariantSet.hasVariant (stage.deselected prim choice.set) prim choice := by
  have hsame := same_but_of_selecting stage prim choice
  by_cases hhere : DeclaredAt stage.layers prim choice
  · -- a declaration of the prim itself is there in both stages
    have hselecting : DeclaredAt (stage.selecting prim choice).layers prim choice :=
      declared_at_selecting_iff.mpr hhere
    have hdeselected := declared_at_of_kept
      (hsame.flip.imp fun _ _ hlayer => hlayer.symm.kept_by) hselecting
    rw [VariantSet.has_variant_of_declared_at hroot hplain hselecting,
      VariantSet.has_variant_of_declared_at hroot hplain hdeselected]
  · -- otherwise the selection does not count, and none does in either stage
    have hselecting : Unselected (stage.selecting prim choice).layers prim choice.set :=
      fun variant hchoice => hhere ((mem_choices_at_selecting_iff hlayers).mp hchoice).2
    have hdeselected := unselected_of_deselected stage prim choice.set
    rw [Bool.eq_iff_iff]
    exact ⟨VariantSet.has_variant_of_kept (kept_of_same_but
        (hsame.flip.imp fun _ _ hlayer => hlayer.symm) hselecting hdeselected),
      VariantSet.has_variant_of_kept (kept_of_same_but hsame hdeselected hselecting)⟩

/-- The selected variant is reported as far as the prim declares it. -/
theorem selection_selecting (hlayers : 0 < stage.layers.length) (hroot : prim.isRoot = false)
    (hplain : prim.hasChoices = false) :
    VariantSet.selection? (stage.selecting prim choice) prim choice.set =
      if VariantSet.hasVariant (stage.deselected prim choice.set) prim choice then
        some choice.variant
      else none := by
  obtain ⟨_, hselection, -, strongest, others, hgather, rfl⟩ :=
    @exists_cons_of_selecting stage prim choice hlayers
  have hprim : (stage.selecting prim choice).hasPrim prim = true :=
    compose_is_some_iff.mpr ⟨hroot, hplain, hgather ▸ List.cons_ne_nil _ _⟩
  rw [VariantSet.selection_eq hprim, hgather, List.findSome?_cons, hselection, Option.filter_some,
    has_variant_selecting hlayers hroot hplain]

/-- A selection in the first layer that succeeds takes effect as far as its variant is declared, on
whatever is authored on a blank stage. It is reported exactly if the prim declares its variant when
nothing is selected in the set, so not if only the variant that was selected before declares it.
Nothing within other variants of the set contributes to any prim. If a spec of the prim itself
declares the variant, it is reported, and every spec of any layer in the variant contributes to the
prim with all its attributes; otherwise nothing within the variant contributes. -/
theorem selection_takes_effect {α : Type} {program : Edit α} (h : program.Authored)
    (htarget : (blank.after program).target = .ofLayer 0)
    (hselect : (Edit.selectVariant prim choice).run (blank.after program) = .ok () later) :
    VariantSet.selection? later prim choice.set =
        (if VariantSet.hasVariant ((blank.after program).deselected prim choice.set) prim choice
          then some choice.variant else none) ∧
      (∀ variant ≠ choice.variant, ¬ VariantShows later.layers prim ⟨choice.set, variant⟩) ∧
      (DeclaredAt (blank.after program).layers prim choice →
        VariantSet.selection? later prim choice.set = some choice.variant ∧
          ∀ layer ∈ later.layers, ∀ spec,
            layer.spec? (prim.choose prim.depth choice) = some spec →
              (∃ opinion ∈ gather later.layers prim, opinion.layer = layer ∧
                opinion.site = prim.choose prim.depth choice ∧ opinion.spec = spec) ∧
              ∀ name ∈ spec.attributes.keys, (later.attribute? ⟨prim, name⟩).isSome = true) ∧
      (¬ DeclaredAt (blank.after program).layers prim choice →
        ¬ VariantShows later.layers prim choice) := by
  obtain ⟨rfl, hlayers, hvariant, hwrites⟩ := selecting_of_run_select htarget hselect
  obtain ⟨hroot, hplain, -⟩ := VariantSet.has_variant_iff.mp hvariant
  have hpos := PrimPath.is_root_eq_false_iff.mp hroot
  have harcs := hwrites.arcs_plain (arcs_plain_of_authored h)
  have hproper : (Operation.selectVariant prim choice).Proper := by
    intro _ hpath
    cases hpath
  have hregular := (regular_of_authored h).of_writes hproper hwrites
  have hreported := @selection_selecting _ prim choice hlayers hroot hplain
  refine ⟨hreported, fun variant hother => ?_, fun hhere => ⟨?_, ?_⟩, fun hnowhere => ?_⟩
  · refine not_variant_shows harcs hpos fun hchoice => ?_
    exact hother ((mem_choices_at_selecting_iff hlayers).mp hchoice).1
  · have hdeclared : DeclaredAt ((blank.after program).selecting prim choice).layers prim choice :=
      declared_at_selecting_iff.mpr hhere
    rw [hreported, ← has_variant_selecting hlayers hroot hplain,
      VariantSet.has_variant_of_declared_at hroot hplain hdeclared, if_pos rfl]
  · intro layer hlayer spec hspec
    have hchoice : choice ∈ choicesAt ((blank.after program).selecting prim choice).layers prim :=
      (mem_choices_at_selecting_iff hlayers).mpr ⟨rfl, hhere⟩
    obtain ⟨opinion, hopinion, hat⟩ := exists_mem_gather_of_choice hpos hchoice hlayer hspec
    refine ⟨⟨opinion, hopinion, hat⟩, fun name hname => ?_⟩
    have hentry := SortedMap.get?_eq_some_iff.mp hspec
    have hproperty := (hregular.layers layer hlayer _ hentry).2.names name hname
    refine attribute_is_some_of_mem_gather hopinion hroot hplain hproperty ?_
    rw [hat.2.2]
    exact Option.isSome_iff_exists.mpr (SortedMap.mem_keys_iff.mp hname)
  · refine not_variant_shows harcs hpos fun hchoice => ?_
    exact hnowhere ((mem_choices_at_selecting_iff hlayers).mp hchoice).2

/-- Two variants of a prim, of which one is selected, and in a weaker layer an attribute within the
other one. -/
def twoLooks : Edit Unit := do
  Edit.definePrim ⟨[.plain "P"]⟩ none
  Edit.addVariant ⟨[.plain "P"]⟩ ⟨"s", "w"⟩
  Edit.addVariant ⟨[.plain "P"]⟩ ⟨"s", "v"⟩
  Edit.selectVariant ⟨[.plain "P"]⟩ ⟨"s", "w"⟩
  let layer ← Edit.addSublayer "details"
  Edit.setTarget ((EditTarget.ofLayer layer).redirect ⟨[.plain "P"]⟩ ⟨"s", "v"⟩)
  Edit.createAttribute ⟨⟨[.plain "P"]⟩, "x"⟩ .float false
  Edit.setTarget (.ofLayer 0)

/-- Selecting the other one replaces the selection and shows the attribute. -/
theorem other_look_takes_effect :
    (twoLooks.run' .blank).isSome = true ∧
      ((blank.after twoLooks).attribute? ⟨⟨[.plain "P"]⟩, "x"⟩).isNone = true ∧
      ∃ later, (Edit.selectVariant ⟨[.plain "P"]⟩ ⟨"s", "v"⟩).run (blank.after twoLooks) =
          .ok () later ∧
        VariantSet.selection? later ⟨[.plain "P"]⟩ "s" = some "v" ∧
        (later.attribute? ⟨⟨[.plain "P"]⟩, "x"⟩).isSome = true ∧
        ¬ VariantShows later.layers ⟨[.plain "P"]⟩ ⟨"s", "w"⟩ := by
  have hauthored : twoLooks.Authored :=
    .bind_any (.of_no_attribute (.definePrim _ _) rfl) fun _ =>
    .bind_any (.of_no_attribute (.addVariant _ _) rfl) fun _ =>
    .bind_any (.of_no_attribute (.addVariant _ _) rfl) fun _ =>
    .bind_any (.of_no_attribute (.selectVariant _ _) rfl) fun _ =>
    .bind_any (.addSublayer _) fun _ =>
    .bind_any (.setTarget _) fun _ =>
    .bind_any (.createAttribute (by decide) _ _) fun _ => .setTarget _
  have hselect : (Edit.selectVariant ⟨[.plain "P"]⟩ ⟨"s", "v"⟩).run (blank.after twoLooks) =
      .ok () _ := Edit.run_eq_ok_after (by decide)
  have hdeclared : DeclaredAt (blank.after twoLooks).layers ⟨[.plain "P"]⟩ ⟨"s", "v"⟩ := by
    unfold DeclaredAt
    decide
  obtain ⟨-, hothers, hhere, -⟩ := selection_takes_effect hauthored (by decide) hselect
  obtain ⟨hreported, hcontributes⟩ := hhere hdeclared
  refine ⟨by decide, by decide, _, hselect, hreported, ?_, hothers "w" (by decide)⟩
  · obtain ⟨layer, hlayer, spec, hspec, hname⟩ : ∃ layer ∈ ((blank.after twoLooks).after
        (Edit.selectVariant ⟨[.plain "P"]⟩ ⟨"s", "v"⟩)).layers, ∃ spec,
          layer.spec? ((⟨[.plain "P"]⟩ : PrimPath).choose 1 ⟨"s", "v"⟩) = some spec ∧
            "x" ∈ spec.attributes.keys := ⟨_, .tail _ (.head _), _, rfl, by decide⟩
    exact (hcontributes layer hlayer spec hspec).2 "x" hname

/-- A variant that is declared within the selected variant only, and an attribute within it. -/
def buriedLook : Edit Unit := do
  Edit.definePrim ⟨[.plain "P"]⟩ none
  Edit.addVariant ⟨[.plain "P"]⟩ ⟨"s", "w"⟩
  Edit.selectVariant ⟨[.plain "P"]⟩ ⟨"s", "w"⟩
  EditScope.during ⟨[.plain "P"]⟩ ⟨"s", "w"⟩ none (Edit.addVariant ⟨[.plain "P"]⟩ ⟨"s", "v"⟩)
  EditScope.during ⟨[.plain "P"]⟩ ⟨"s", "v"⟩ none
    (Edit.createAttribute ⟨⟨[.plain "P"]⟩, "x"⟩ .float false)

/-- It is selected without an error, but its declaration goes with the variant that was selected
before: no selection is reported, and the attribute is not there. -/
theorem buried_selection_dropped :
    buriedLook.Authored ∧ (buriedLook.run' .blank).isSome = true ∧
      (blank.after buriedLook).target = .ofLayer 0 ∧
      ∃ later, (Edit.selectVariant ⟨[.plain "P"]⟩ ⟨"s", "v"⟩).run (blank.after buriedLook) =
          .ok () later ∧
        VariantSet.selection? later ⟨[.plain "P"]⟩ "s" = none ∧
        (∃ spec, later.spec? 0 ((⟨[.plain "P"]⟩ : PrimPath).choose 1 ⟨"s", "v"⟩) = some spec ∧
          "x" ∈ spec.attributes.keys) ∧
        later.attribute? ⟨⟨[.plain "P"]⟩, "x"⟩ = none := by
  refine ⟨?_, by decide, by decide, _, Edit.run_eq_ok_after (by decide), by decide,
    ⟨_, rfl, by decide⟩, by decide⟩
  exact .bind_any (.of_no_attribute (.definePrim _ _) rfl) fun _ =>
    .bind_any (.of_no_attribute (.addVariant _ _) rfl) fun _ =>
    .bind_any (.of_no_attribute (.selectVariant _ _) rfl) fun _ =>
    .bind_any (EditScope.authored_during (.of_no_attribute (.addVariant _ _) rfl) _ _ _) fun _ =>
    EditScope.authored_during (.createAttribute (by decide) _ _) _ _ _

end Stage

end LayeredShading
