import LayeredShading.Proofs.Network.MasterSpecs
import LayeredShading.Proofs.Network.VariantEdits
import LayeredShading.Proofs.Network.VariantSets
import LayeredShading.Proofs.Path.Reading
import LayeredShading.Proofs.Stage.Atomicity
import LayeredShading.Proofs.Stage.View

/-!
# Master variants as a whole

Master variants are checked before they are made, and whatever a failing call does, the target is in
force again afterwards (`target_after_create`). With the master in view a call that passes its check
cannot fail: each round declares a variant that composition sees, so the scope for it can be opened
(`Ready.run_add_material`). Out of view the first round declares a variant that composition does
not see, and its scope is refused; the declaration stays (`MasterVariant.failed_create`), as in
`MasterVariant.redirected_create_leaves_variant`.
-/

namespace LayeredShading

open Opinion

/-! ## Edits within a scope -/

/-- A variant that is not declared is refused without a change. -/
theorem Edit.run_require_variant_eq_error {stage : Stage} {path : PrimPath}
    {choice : VariantChoice} (h : VariantSet.hasVariant stage path choice = false) :
    ∃ error, (Edit.requireVariant path choice).run stage = .error error stage := by
  have hreads := Edit.reads_only_require_variant path choice stage
  cases hrun : (Edit.requireVariant path choice).run stage with
  | ok result later =>
      rw [Edit.run_require_variant_eq_ok, h] at hrun
      cases hrun.1
  | error error later =>
      rw [Edit.after_of_error hrun] at hreads
      exact ⟨error, by rw [hreads]⟩

namespace EditScope

variable {α : Type} {stage : Stage} {prim : PrimPath} {choice : VariantChoice} {program : Edit α}

/-- Whether or not it fails, an edit within a scope of its own leaves the target that was there
before. -/
theorem target_after_during (hprogram : program.Authored) (hlayer : stage.HasLayer stage.target) :
    (stage.after (during prim choice none program)).target = stage.target := by
  rw [during, Edit.after_bind]
  have hopens := opens_enter stage prim choice none
  have hgrows := Stage.grows_after (authored_enter prim choice none) stage
  cases henter : (enter prim choice none).run stage with
  | error error later =>
      rw [henter] at hopens
      exact hopens
  | ok scope entered =>
      rw [henter] at hopens
      rw [Edit.after_of_ok henter] at hgrows
      obtain ⟨hactive, hprevious⟩ := hopens
      have hinside := Stage.grows_after (authored_edit hprogram scope) entered
      show (entered.after (tryCatch (scope.edit program) _ >>= _)).target = _
      rw [Edit.after_bind, Edit.run_try_catch]
      -- The scope is closed in either case, which the layer of the target allows.
      cases hrun : (scope.edit program).run entered with
      | ok value between =>
          rw [Edit.after_of_ok hrun] at hinside
          have hclosed := (run_close_eq_ok hactive).mpr
            ⟨hprevious ▸ (hlayer.mono hgrows).mono hinside, rfl⟩
          show (between.after (scope.close >>= fun _ => pure value)).target = _
          rw [Edit.after_bind, hclosed]
          exact hprevious
      | error error between =>
          rw [Edit.after_of_error hrun] at hinside
          have hclosed := run_drop_of_active hactive
            (hprevious ▸ (hlayer.mono hgrows).mono hinside)
          have hhandled : (do scope.drop; throw error : Edit α).run between =
              .error error { between with target := scope.previous } := by
            rw [EStateM.run_bind, hclosed]
            rfl
          simp only [hhandled]
          exact hprevious

/-- An edit that succeeds with the target redirected into a declared variant succeeds within a scope
for the variant, after which the target is given back. -/
theorem run_during {result : α} {between : Stage} (hlayer : stage.HasLayer stage.target)
    (hvariant : VariantSet.hasVariant stage prim choice = true)
    (hprogram : program.run { stage with target := stage.target.redirect prim choice } =
      .ok result between) (hbetween : between.HasLayer stage.target) :
    (during prim choice none program).run stage =
      .ok result { between with target := stage.target } := by
  refine Edit.run_bind_eq_ok.mpr ⟨_, _, run_enter stage prim choice none hvariant hlayer, ?_⟩
  refine Edit.run_bind_eq_ok.mpr ⟨result, between, Edit.run_rethrow_eq_ok.mpr ?_, ?_⟩
  · exact Edit.run_bind_eq_ok.mpr ⟨(), _, Edit.run_check_eq_ok.mpr ⟨rfl, rfl⟩, hprogram⟩
  · refine Edit.run_bind_eq_ok.mpr ⟨(), _, (run_close_eq_ok rfl).mpr ⟨hbetween, rfl⟩, rfl⟩

/-- An edit within a scope for a variant that is not declared fails without a change. -/
theorem run_during_eq_error (hvariant : VariantSet.hasVariant stage prim choice = false) :
    ∃ error, (during prim choice none program).run stage = .error error stage := by
  obtain ⟨error, hrefused⟩ := Edit.run_require_variant_eq_error hvariant
  refine ⟨error, ?_⟩
  rw [during, EStateM.run_bind, enter, EStateM.run_bind, hrefused]

end EditScope

namespace MasterVariant

variable {stage later : Stage} {master material : PrimPath} {materials : List PrimPath}
  {set : String}

/-! ## The target -/

/-- Whether or not it fails, making master variants leaves the target as it is. -/
theorem target_after_create (hlayer : stage.HasLayer stage.target) (master : PrimPath)
    (materials : List PrimPath) (set : Option String) :
    (stage.after (create master materials set)).target = stage.target := by
  let related (stage later : Stage) : Prop := stage.HasLayer stage.target →
    later.target = stage.target ∧ later.HasLayer later.target
  have htrans : ∀ first second third, related first second → related second third →
      related first third := by
    intro first second third hfirst hsecond hlayer
    obtain ⟨htarget, hlayer⟩ := hfirst hlayer
    exact ⟨(hsecond hlayer).1.trans htarget, (hsecond hlayer).2⟩
  have hround : ∀ material (between : Stage), related between
      (between.after (addMaterial master (set.getD Material.variantSet) material)) := by
    intro material between
    refine Edit.after_bind_related htrans (fun hlayer => ?_) fun _ added _ hlayer => ?_
    · exact ⟨Operation.keeps_target (.addVariant master _) between,
        (Stage.grows_after (.of_no_attribute (.addVariant master _) rfl) between).has_layer hlayer⟩
    · have hrefer : (Edit.addReference master material).Authored :=
        .of_no_attribute (.addReference master material) rfl
      exact ⟨EditScope.target_after_during hrefer hlayer,
        (Stage.grows_after (EditScope.authored_during hrefer _ _ _) added).has_layer hlayer⟩
  have hcreate : related stage (stage.after (create master materials set)) := by
    refine Edit.after_bind_related htrans (fun hlayer => ⟨rfl, hlayer⟩) fun current _ hget => ?_
    obtain ⟨rfl, rfl⟩ := Edit.run_get_eq_ok.mp hget
    refine Edit.after_bind_related htrans (fun hlayer => ?_) fun _ between _ =>
      Edit.after_for_m_related (fun _ hlayer => ⟨rfl, hlayer⟩) htrans
        fun material _ => hround material
    rw [Edit.reads_only_check]
    exact ⟨rfl, hlayer⟩
  exact (hcreate hlayer).1

/-! ## In view -/

/-- The stage with the variant for a material declared where the target keeps opinions on the
master. -/
def declared (stage : Stage) (master : PrimPath) (set : String) (material : PrimPath) : Stage :=
  stage.changed stage.target.layer (stage.target.specPath master) .override
    fun spec => spec.addVariants set [Material.name material]

/-- A master that variants can be added to: it composes and is in view, and the target has a
layer. -/
structure Ready (stage : Stage) (master : PrimPath) : Prop where
  has_layer : stage.HasLayer stage.target
  has_prim : stage.hasPrim master = true
  in_view : stage.InView master

/-- A variant is declared on a master that is ready, which stays ready. -/
theorem Ready.declared (h : Ready stage master) (set : String) (material : PrimPath) :
    Ready (declared stage master set material) master ∧
      ∃ spec, (MasterVariant.declared stage master set material).spec? stage.target.layer
          (stage.target.specPath master) = some spec ∧
        spec.declares ⟨set, Material.name material⟩ = true := by
  obtain ⟨hroot, hplain, -⟩ := compose_is_some_iff.mp h.has_prim
  refine ⟨⟨h.has_layer.changed _ _ _ _, ?_, h.in_view.changed hplain⟩, ?_⟩
  · exact h.in_view.has_prim_changed hroot hplain h.has_layer
  · exact @Stage.exists_spec_declares stage _ _ .override ⟨set, Material.name material⟩ h.has_layer

/-- What is written in a variant leaves a master ready that has a spec where the target keeps
opinions on it. -/
theorem Ready.changed (h : Ready stage master) {spec : PrimSpec}
    (hspec : stage.spec? stage.target.layer (stage.target.specPath master) = some spec)
    {site : PrimPath} (hsite : site.hasChoices = true) (change : PrimSpec → PrimSpec) :
    Ready (stage.changed stage.target.layer site .override change) master := by
  obtain ⟨hroot, hplain, -⟩ := compose_is_some_iff.mp h.has_prim
  have hview : (stage.changed stage.target.layer site .override change).InView master := by
    rw [Stage.InView, local_sites_changed hsite hplain]
    exact h.in_view
  refine ⟨h.has_layer.changed _ _ _ _, ?_, hview⟩
  obtain ⟨own, hown⟩ : ∃ own, (stage.changed stage.target.layer site .override change).spec?
      stage.target.layer (stage.target.specPath master) = some own := by
    rw [Stage.spec_changed h.has_layer]
    split
    next => exact ⟨_, rfl⟩
    next => exact ⟨spec, hspec⟩
  exact Stage.has_prim_of_local_site hroot hplain hview hown

/-- A material of the scene with a proper name is added to a master that is ready, which is then
ready for the next one. -/
theorem Ready.run_add_material (h : Ready stage master) (hset : isPrimName set = true)
    (hname : isPrimName (Material.name material) = true)
    (hmaterial : material.requireScenePath = .ok ()) :
    ∃ later, (addMaterial master set material).run stage = .ok () later ∧ Ready later master := by
  obtain ⟨hroot, hplain, -⟩ := compose_is_some_iff.mp h.has_prim
  let choice : VariantChoice := ⟨set, Material.name material⟩
  obtain ⟨hready, spec, hspec, hdeclares⟩ := h.declared set material
  let between := MasterVariant.declared stage master set material
  have hvariant : VariantSet.hasVariant between master choice = true :=
    hready.in_view.has_variant hroot hplain hspec hdeclares
  -- The reference stands in the variant, so the master stays ready.
  let site := (between.target.redirect master choice).specPath master
  have hcarries : site.CarriesChoice master choice := by
    refine EditTarget.carries_spec_path _ (PrimPath.is_root_eq_false_iff.mp hroot) hplain ?_
    rw [PrimPath.strip_eq_self hplain]
    exact PrimPath.is_under_refl master
  have hsite : site.hasChoices = true := by
    by_contra hsitePlain
    exact PrimPath.not_carries_of_plain (Bool.not_eq_true _ ▸ hsitePlain) hcarries
  let later := between.changed between.target.layer site .override
    fun spec => { spec with references := addNew spec.references material }
  have hlater : Ready later master := hready.changed hspec hsite _
  have hrefer : (EditScope.during master choice none (Edit.addReference master material)).run
      between = .ok () later :=
    EditScope.run_during hready.has_layer hvariant
      (Edit.run_add_reference_eq_ok.mpr ⟨hmaterial, hready.has_prim, hready.has_layer, rfl⟩)
      hlater.has_layer
  refine ⟨later, Edit.run_bind_eq_ok.mpr ⟨(), between, ?_, hrefer⟩, hlater⟩
  exact Edit.run_add_variant_eq_ok.mpr ⟨hset, hname, h.has_prim, h.has_layer, rfl⟩

/-- Materials of the scene with proper names are added to a master that is ready. -/
theorem Ready.run_add_materials (h : Ready stage master) (hset : isPrimName set = true)
    (hmaterials : ∀ material ∈ materials, isPrimName (Material.name material) = true ∧
      material.requireScenePath = .ok ()) :
    ∃ later, (materials.forM (addMaterial master set)).run stage = .ok () later ∧
      Ready later master := by
  induction materials generalizing stage with
  | nil => exact ⟨stage, rfl, h⟩
  | cons material rest ih =>
      obtain ⟨hname, hmaterial⟩ := hmaterials material List.mem_cons_self
      obtain ⟨between, hfirst, hbetween⟩ := h.run_add_material hset hname hmaterial
      obtain ⟨later, hrest, hlater⟩ :=
        ih hbetween fun other hother => hmaterials other (List.mem_cons_of_mem _ hother)
      exact ⟨later, Edit.run_for_m_cons_eq_ok.mpr ⟨between, hfirst, hrest⟩, hlater⟩

/-- A material that is checked is a prim of the scene, and its name is proper if its path is. -/
theorem proper_of_check (h : check stage master materials set = .ok ())
    (hmaterials : ∀ material ∈ materials, material.Spellable) (hmem : material ∈ materials) :
    isPrimName (Material.name material) = true ∧ material.requireScenePath = .ok () := by
  obtain ⟨-, -, -, hchecked⟩ := check_eq_ok h
  have htyped := (hchecked material hmem).1
  rw [Material.isMaterial, Stage.isA, Option.any_eq_true] at htyped
  obtain ⟨prim, hcomposed, -⟩ := htyped
  obtain ⟨hroot, hplain, -⟩ := compose_is_some_iff.mp (Option.isSome_of_eq_some hcomposed)
  obtain ⟨name, hname, hproper⟩ := (hmaterials material hmem).exists_name hroot
  refine ⟨?_, PrimPath.require_scene_path_eq_ok_iff.mpr ⟨hroot, hplain⟩⟩
  rwa [Material.name, hname, Option.getD_some]

/-- With the check passed and the master in view, the variants are made. -/
theorem run_create_of_in_view {set : Option String} (hlayer : stage.HasLayer stage.target)
    (hmaterials : ∀ material ∈ materials, material.Spellable)
    (hcheck : check stage master materials (set.getD Material.variantSet) = .ok ())
    (hview : stage.InView master) :
    ∃ later, (create master materials set).run stage = .ok () later := by
  obtain ⟨-, hset, -⟩ := check_eq_ok_iff.mp hcheck
  have hready : Ready stage master := ⟨hlayer, (check_eq_ok hcheck).2.1, hview⟩
  obtain ⟨later, hrun, -⟩ := hready.run_add_materials hset
    fun material hmem => proper_of_check hcheck hmaterials hmem
  refine ⟨later, Edit.run_bind_eq_ok.mpr ⟨stage, stage, rfl, ?_⟩⟩
  exact Edit.run_bind_eq_ok.mpr ⟨(), stage, Edit.run_check_eq_ok.mpr ⟨hcheck, rfl⟩, hrun⟩

/-! ## Out of view -/

/-- With the check passed and the master out of view, the variant for the first material is declared
and the scope for it refused. -/
theorem run_create_of_out_of_view {set : Option String} {rest : List PrimPath}
    (hlayer : stage.HasLayer stage.target) (harcs : ArcsPlain stage.layers)
    (hmaterials : ∀ other ∈ material :: rest, other.Spellable)
    (hcheck : check stage master (material :: rest) (set.getD Material.variantSet) = .ok ())
    (hout : ¬ stage.InView master) :
    ∃ error, (create master (material :: rest) set).run stage =
      .error error (declared stage master (set.getD Material.variantSet) material) := by
  obtain ⟨-, hset, -⟩ := check_eq_ok_iff.mp hcheck
  obtain ⟨-, hprim, -, -⟩ := check_eq_ok hcheck
  obtain ⟨hroot, hplain, -⟩ := compose_is_some_iff.mp hprim
  obtain ⟨hname, -⟩ := proper_of_check hcheck hmaterials List.mem_cons_self
  let choice : VariantChoice := ⟨set.getD Material.variantSet, Material.name material⟩
  have hdeclare : (Edit.addVariant master choice).run stage = .ok () _ :=
    Edit.run_add_variant_eq_ok.mpr ⟨hset, hname, hprim, hlayer, rfl⟩
  -- The declaration is hidden, so the master declares the variant no more than before.
  have hvariant : VariantSet.hasVariant (declared stage master choice.set material) master choice =
      false := by
    have hsame : (declared stage master choice.set material).prim? master = stage.prim? master :=
      Stage.prim_eq_of_out_of_view harcs hplain hout master
    rw [VariantSet.hasVariant, VariantSet.find?, hsame]
    exact has_variant_eq_false_of_check hcheck List.mem_cons_self
  obtain ⟨error, hrefused⟩ :=
    @EditScope.run_during_eq_error _ _ _ _ (Edit.addReference master material) hvariant
  have hround : (addMaterial master choice.set material).run stage =
      .error error (declared stage master choice.set material) :=
    (Edit.run_bind_of_ok hdeclare).trans hrefused
  have hrounds : ((material :: rest).forM (addMaterial master choice.set)).run stage =
      .error error (declared stage master choice.set material) :=
    @Edit.run_bind_of_error _ _ stage _ (fun _ => rest.forM (addMaterial master choice.set)) _ _
      hround
  refine ⟨error, ?_⟩
  rw [create, Edit.run_bind_of_ok (Edit.run_get_eq_ok.mpr ⟨rfl, rfl⟩)]
  exact (Edit.run_bind_of_ok (Edit.run_check_eq_ok.mpr ⟨hcheck, rfl⟩)).trans hrounds

/-- Where the check fails nothing is written. -/
theorem run_create_unchecked {set : Option String} {refusal : Error}
    (hcheck : check stage master materials (set.getD Material.variantSet) = .error refusal) :
    (create master materials set).run stage = .error refusal stage := by
  rw [create, Edit.run_bind_of_ok (Edit.run_get_eq_ok.mpr ⟨rfl, rfl⟩)]
  refine Edit.run_bind_of_error ?_
  rw [hcheck]
  rfl

/-- What a failing call leaves. On every stage that is made of layers or loaded and then changed by
any actions, whatever the target, the master, the materials and the set: if making master variants
fails, the target is as it was. With the master in view nothing else has changed either, and the
check has failed. Out of view, if arcs lead to plain paths, either nothing has changed, or the check
has passed and the variant for the first material has been declared where composition does not see
it; the composed prims are as before in any case. -/
theorem failed_create (h : stage.Reached) {set : Option String}
    (hmaterials : ∀ material ∈ materials, material.Spellable) {error : Error}
    (herror : (create master materials set).run stage = .error error later) :
    later.target = stage.target ∧ (stage.InView master → later = stage ∧
        check stage master materials (set.getD Material.variantSet) = .error error) ∧
      (ArcsPlain stage.layers → (∀ path, later.prim? path = stage.prim? path) ∧
        (later = stage ∨ ¬ stage.InView master ∧ ∃ material rest, materials = material :: rest ∧
          check stage master materials (set.getD Material.variantSet) = .ok () ∧
          later = declared stage master (set.getD Material.variantSet) material)) := by
  have hlayer := h.has_layer
  have htarget := target_after_create hlayer master materials set
  rw [Edit.after_of_error herror] at htarget
  refine ⟨htarget, ?_⟩
  cases hcheck : check stage master materials (set.getD Material.variantSet) with
  | error refusal =>
      rw [run_create_unchecked hcheck] at herror
      cases herror
      exact ⟨fun _ => ⟨rfl, rfl⟩, fun _ => ⟨fun _ => rfl, .inl rfl⟩⟩
  | ok result =>
      have hout : ¬ stage.InView master := by
        intro hview
        obtain ⟨_, hrun⟩ := run_create_of_in_view hlayer hmaterials hcheck hview
        rw [hrun] at herror
        cases herror
      refine ⟨fun hview => absurd hview hout, fun harcs => ?_⟩
      obtain ⟨-, hprim, -⟩ := check_eq_ok hcheck
      obtain ⟨-, hplain, -⟩ := compose_is_some_iff.mp hprim
      cases materials with
      | nil => exact absurd rfl (check_eq_ok hcheck).1
      | cons material rest =>
          obtain ⟨_, hrun⟩ := run_create_of_out_of_view hlayer harcs hmaterials hcheck hout
          rw [hrun] at herror
          cases herror
          exact ⟨Stage.prim_eq_of_out_of_view harcs hplain hout,
            .inr ⟨hout, material, rest, rfl, rfl, rfl⟩⟩

/-- A prim with a selected variant, two materials of the same name, and the target in the
variant. -/
def masterInLook : Stage :=
  (((((((Stage.ofLayers []).after
    (Action.author (.definePrim ⟨[.plain "X"]⟩ none)).run).after
    (Action.author (.addVariant ⟨[.plain "X"]⟩ ⟨"s", "v"⟩)).run).after
    (Action.author (.selectVariant ⟨[.plain "X"]⟩ ⟨"s", "v"⟩)).run).after
    (Action.author (.definePrim ⟨[.plain "A"]⟩ (some "Material"))).run).after
    (Action.author (.definePrim ⟨[.plain "B", .plain "A"]⟩ (some "Material"))).run).after
    (Action.setTarget ((EditTarget.ofLayer 0).redirect ⟨[.plain "X"]⟩ ⟨"s", "v"⟩)).run)

/-- Variants for both materials are refused without a change. -/
theorem duplicates_in_look_refused :
    masterInLook.InView ⟨[.plain "X"]⟩ ∧
      ∃ error later, (create ⟨[.plain "X"]⟩ [⟨[.plain "A"]⟩, ⟨[.plain "B", .plain "A"]⟩]
        (some "look")).run masterInLook = .error error later ∧ later = masterInLook := by
  have hreached : masterInLook.Reached :=
    .after _ (.after _ (.after _ (.after _ (.after _ (.after _ (.ofLayers []))))))
  have hview : masterInLook.InView ⟨[.plain "X"]⟩ := by decide
  have hmaterials : ∀ material ∈ ([⟨[.plain "A"]⟩, ⟨[.plain "B", .plain "A"]⟩] : List PrimPath),
      material.Spellable := by
    have hnames : ∀ material ∈ ([⟨[.plain "A"]⟩, ⟨[.plain "B", .plain "A"]⟩] : List PrimPath),
        ∀ segment ∈ material.segments, isPrimName segment.name = true ∧ segment.choices = [] := by
      decide
    intro material hmem segment hsegment
    obtain ⟨hname, hchoices⟩ := hnames material hmem segment hsegment
    exact ⟨hname, by rw [hchoices]; exact nofun⟩
  have hrun : (create ⟨[.plain "X"]⟩ [⟨[.plain "A"]⟩, ⟨[.plain "B", .plain "A"]⟩]
      (some "look")).run masterInLook = .error (.duplicateVariant "A") masterInLook := rfl
  obtain ⟨-, hsame, -⟩ := failed_create hreached hmaterials hrun
  exact ⟨hview, _, _, hrun, (hsame hview).1⟩

/-- A prim, a material, and the target in a variant of the prim that is not declared. -/
def masterInMissingLook : Stage :=
  (((Stage.ofLayers []).after
    (Action.author (.definePrim ⟨[.plain "X"]⟩ none)).run).after
    (Action.author (.definePrim ⟨[.plain "A"]⟩ (some "Material"))).run).after
    (Action.setTarget ((EditTarget.ofLayer 0).redirect ⟨[.plain "X"]⟩ ⟨"s", "v"⟩)).run

/-- There the call fails after its check, and the variant that it has declared stays. -/
theorem redirected_create_leaves_variant :
    masterInMissingLook.Reached ∧ ∃ later,
      check masterInMissingLook ⟨[.plain "X"]⟩ [⟨[.plain "A"]⟩] "look" = .ok () ∧
      (create ⟨[.plain "X"]⟩ [⟨[.plain "A"]⟩] (some "look")).run masterInMissingLook =
        .error (.unknownVariantSet "/X" "look") later ∧
      masterInMissingLook.spec? 0 ⟨[⟨"X", [⟨"s", "v"⟩]⟩]⟩ = none ∧
      later.spec? 0 ⟨[⟨"X", [⟨"s", "v"⟩]⟩]⟩ =
        some { PrimSpec.blank .override with variantSets := [⟨"look", ["A"]⟩] } := by
  have hreached : masterInMissingLook.Reached := .after _ (.after _ (.after _ (.ofLayers [])))
  exact ⟨hreached, _, rfl, rfl, rfl, rfl⟩

end MasterVariant

end LayeredShading
