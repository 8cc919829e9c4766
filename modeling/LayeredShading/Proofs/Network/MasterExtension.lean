import LayeredShading.Proofs.Network.MasterSpecs
import LayeredShading.Proofs.Network.VariantEdits
import LayeredShading.Proofs.SceneFile.Extension
import LayeredShading.Proofs.Stage.Atomicity

/-!
# Masters on scenes that were loaded

Defining a master and making variants on it extends a stage: the definition makes blank specs, the
variants are new ones, so that no selection of them begins to count, and their references stand in
variants. `MasterVariant.written` is all that becomes of the specs that are already there.
-/

namespace LayeredShading

open Opinion

/-! ## Variant sets that are changed twice -/

theorem change_variant_set_twice (name : String) (first second : List String → List String)
    (sets : List VariantSetSpec) :
    changeVariantSet name second (changeVariantSet name first sets) =
      changeVariantSet name (second ∘ first) sets := by
  induction sets with
  | nil => simp [changeVariantSet]
  | cons set rest ih =>
      rw [changeVariantSet, changeVariantSet]
      split
      next hname => simp [changeVariantSet, hname]
      next hname => rw [changeVariantSet, if_neg hname, ih]

theorem PrimSpec.add_variants_twice (spec : PrimSpec) (set : String) (first second : List String) :
    (spec.addVariants set first).addVariants set second =
      spec.addVariants set (first ++ second) := by
  simp only [addVariants, change_variant_set_twice]
  congr 2
  funext variants
  exact (addAllNew_append variants first second).symm

/-! ## Extension -/

namespace Stage

variable {stage : Stage} {place : Nat} {site : PrimPath}

/-- A variant that is selected at a plain path is selected by a spec of the prim. -/
theorem spec_selects_of_mem {prim : PrimPath} {choice : VariantChoice}
    (hplain : prim.hasChoices = false) (h : choice ∈ selectedAt stage.layers prim) :
    SpecSelects stage.layers prim choice := by
  obtain ⟨spec, hspec, hselection⟩ :=
    List.exists_of_findSome?_eq_some (mem_selected_at_iff.mp h)
  obtain ⟨place, hspec⟩ := mem_specs_at.mp hspec
  obtain ⟨layer, hlayer, hentry⟩ := entry_of_spec hspec
  exact ⟨layer, hlayer, _, hentry, PrimPath.strip_eq_self hplain,
    SortedMap.get?_eq_some_iff.mp hselection⟩

/-- A stage is extended by variants that no spec selects. -/
theorem extends_to_add_variants (hroot : site.isRoot = false) (hsite : site.Spellable)
    {set : String} {variants : List String}
    (hfree : ∀ variant ∈ variants, ⟨set, variant⟩ ∉ selectedAt stage.layers site) :
    stage.ExtendsTo
      (stage.changed place site .override fun spec => spec.addVariants set variants) where
  target_eq := rfl
  extended := by
    refine .of_changed (fun spec => ⟨⟨List.Subset.refl _, rfl, fun choice hchoice =>
      PrimSpec.declares_add_variants_iff.mpr (.inl hchoice)⟩, rfl⟩)
      fun choice hselected hdeclared => ?_
    rcases declared_at_of_changed hdeclared with hbefore | ⟨-, own, hown, hdeclares⟩
    · exact hbefore
    · rcases PrimSpec.declares_add_variants_iff.mp hdeclares with hdeclares | ⟨rfl, hvariant⟩
      · exact hown hdeclares
      · exact absurd hselected (hfree _ hvariant)
  writable h := h.changed hroot hsite fun _ hspec => hspec.of_eq rfl rfl rfl fun _ => .inl

/-- A stage is extended by a reference. -/
theorem extends_to_add_reference (hroot : site.isRoot = false) (hsite : site.Spellable)
    {source : PrimPath} (hsource : source.Spellable) :
    stage.ExtendsTo (stage.changed place site .override fun spec =>
      { spec with references := addNew spec.references source }) where
  target_eq := rfl
  extended := by
    refine .of_changed (fun spec => ⟨⟨fun other hother => mem_addNew.mpr (.inl hother), rfl,
      fun _ => id⟩, rfl⟩) fun choice _ hdeclared => ?_
    exact declared_at_of_changed_eq (by exact fun _ => rfl) hdeclared
  writable h := by
    refine h.changed hroot hsite fun spec hspec => hspec.of_eq rfl rfl rfl fun other hother => ?_
    rcases mem_addNew.mp hother with hother | rfl
    · exact .inl hother
    · exact .inr hsource

/-- A stage is extended by a definition. -/
theorem extends_to_define {path : PrimPath} {typeName : Option String} {later : Stage}
    (hplain : stage.target.redirections = []) (hpath : path.Spellable)
    (h : (Edit.definePrim path typeName).run stage = .ok () later) : stage.ExtendsTo later := by
  have hafter := Edit.after_of_ok h
  have hextends : stage.ExtendsTo (stage.after (Operation.definePrim path typeName).run) := by
    refine Operation.after_of_writes stage.ExtendsTo (.refl stage) ?_
    intro between later hextends hwrites
    refine hextends.trans ⟨hwrites.target_eq, hwrites.extended, fun hwritable => ?_⟩
    cases hwrites with
    | @made site specifier change hmakes _ =>
        have hsite : between.target.specPath site = site := by
          rw [hextends.target_eq, EditTarget.specPath, hplain]
          rfl
        have hspellable : site.Spellable := by
          rcases hmakes.path_eq_or with rfl | ⟨-, habove, -⟩
          · exact hpath
          · exact hpath.of_mem_ancestry habove
        rw [hsite]
        refine hwritable.changed hmakes.scene_path.1 hspellable fun spec hspec => ?_
        cases hmakes <;> exact hspec.of_eq rfl rfl rfl fun _ => .inl
    | amended hamends => cases hamends
  rwa [← hafter]

/-- A definition of a prim that does not compose leaves all specs as they are that are there. -/
theorem spec_eq_of_define {path : PrimPath} {typeName : Option String} {later : Stage}
    (hplain : stage.target.redirections = []) (hprim : stage.hasPrim path = false)
    (h : (Edit.definePrim path typeName).run stage = .ok () later) {place : Nat} {site : PrimPath}
    {spec : PrimSpec} (hspec : stage.spec? place site = some spec) :
    later.spec? place site = some spec := by
  have hafter := Edit.after_of_ok h
  have hpath : path.requireScenePath = .ok () := by
    rw [Edit.definePrim, Edit.run_bind_eq_ok] at h
    obtain ⟨_, _, hcheck, -⟩ := h
    exact (Edit.run_check_eq_ok.mp hcheck).1
  obtain ⟨hroot, hchoices⟩ := PrimPath.require_scene_path_eq_ok_iff.mp hpath
  have hsite : ∀ prim, stage.target.specPath prim = prim := by
    intro prim
    rw [EditTarget.specPath, hplain]
    rfl
  -- A spec of a prim without choices makes it compose.
  have habsent : ∀ prim ∈ path.ancestry, stage.hasPrim prim = false → site ≠ prim := by
    rintro prim hmem hnone rfl
    have hsiteRoot := PrimPath.is_root_eq_false_iff.mpr (PrimPath.mem_ancestry_iff.mp hmem).1
    rw [has_prim_of_spec hsiteRoot (has_choices_of_mem_ancestry hchoices hmem) hspec] at hnone
    cases hnone
  have hself : path ∈ path.ancestry :=
    PrimPath.mem_ancestry_iff.mpr ⟨PrimPath.is_root_eq_false_iff.mp hroot, [], by simp⟩
  rw [← hafter, ← hspec]
  refine ((Operation.definePrim path typeName).framed stage).spec_eq place site ?_
  rintro (hsame | ⟨_, -, above, habove, hnone, hsame⟩)
  · exact habsent path hself hprim (hsame.trans (hsite path))
  · exact habsent above (List.dropLast_subset _ habove) hnone (hsame.trans (hsite above))

end Stage

/-! ## Masters -/

namespace MasterVariant

variable {stage later : Stage} {master material : PrimPath} {set : String}
  {materials : List PrimPath}

/-- What becomes of a spec in the master's layer when variants for materials are added: that of the
master declares them, and that of the variant for a material refers to it. -/
def written (master : PrimPath) (set : String) (materials : List PrimPath) (path : PrimPath)
    (spec : PrimSpec) : PrimSpec :=
  if path = master then spec.addVariants set (materials.map Material.name)
  else match materials.find? fun material => path = variantSite master set material with
    | some material => { spec with references := addNew spec.references material }
    | none => spec

/-- Materials with different names can be added one after the other. -/
theorem written_cons (hpos : 0 < master.depth)
    (hdistinct : ((material :: materials).map Material.name).Nodup) (path : PrimPath)
    (spec : PrimSpec) :
    written master set materials path (written master set [material] path spec) =
      written master set (material :: materials) path spec := by
  by_cases hmaster : path = master
  · simp [written, hmaster, PrimSpec.add_variants_twice]
  · by_cases hsite : path = variantSite master set material
    · -- The variants of the other materials are not this one.
      have hnone : materials.find?
          (fun other => path = variantSite master set other) = none := by
        refine List.find?_eq_none.mpr fun other hother hsame => ?_
        have hname := name_eq_of_variant_site_eq hpos (hsite.symm.trans (of_decide_eq_true hsame))
        rw [List.map_cons, List.nodup_cons, hname] at hdistinct
        exact hdistinct.1 (List.mem_map_of_mem hother)
      have hne := @variant_site_ne master set hpos material
      simp [written, hne, hsite ▸ hnone, hsite]
    · simp [written, hmaster, hsite]

/-- Adding a material rewrites the specs that are there. -/
theorem spec_added_of_some {place other : Nat} {path : PrimPath} {spec : PrimSpec}
    (hplace : place < stage.layers.length) (hpos : 0 < master.depth)
    (hspec : stage.spec? other path = some spec) :
    (added stage place master set material).spec? other path =
      some (if other = place then written master set [material] path spec else spec) := by
  have hne := @variant_site_ne master set hpos material
  rw [added, Stage.spec_changed (by simpa using hplace)]
  simp only [Stage.spec_changed hplace]
  by_cases hother : other = place
  · subst hother
    by_cases hmaster : path = master
    · subst hmaster
      simp [written, Ne.symm hne, hspec, Specifier.join_override]
    · by_cases hsite : path = variantSite master set material
      · subst hsite
        simp [written, hne, hspec, Specifier.join_override]
      · simp [written, hmaster, hsite, hspec]
  · simp [hother, hspec]

/-- A stage is extended by a material with the name of no selected variant. -/
theorem extends_to_added {place : Nat} (hroot : master.isRoot = false) (hmaster : master.Spellable)
    (hset : isPrimName set = true) (hmaterial : material.Spellable)
    (hmaterialRoot : material.isRoot = false)
    (hfree : ⟨set, Material.name material⟩ ∉ selectedAt stage.layers master) :
    stage.ExtendsTo (added stage place master set material) := by
  obtain ⟨name, hname, hvalid⟩ := hmaterial.exists_name hmaterialRoot
  have hchoice : (⟨set, Material.name material⟩ : VariantChoice).Spellable :=
    ⟨hset, by rwa [Material.name, hname]⟩
  have hsiteRoot : (variantSite master set material).isRoot = false := by
    rw [PrimPath.is_root_eq_false_iff, variantSite, PrimPath.depth_choose]
    exact PrimPath.is_root_eq_false_iff.mp hroot
  exact (Stage.extends_to_add_variants hroot hmaster (by simpa using hfree)).trans
    (Stage.extends_to_add_reference hsiteRoot (hmaster.choose hchoice _) hmaterial)

/-- A stage is extended by materials with names of their own that are not those of selected
variants, and the specs that are there are rewritten. -/
theorem extends_to_of_run_add_materials (hplain : stage.target.redirections = [])
    (hroot : master.isRoot = false) (hmaster : master.Spellable) (hset : isPrimName set = true)
    (hmaterials : ∀ material ∈ materials, material.Spellable ∧ material.isRoot = false)
    (hdistinct : (materials.map Material.name).Nodup)
    (hfree : ∀ material ∈ materials,
      ⟨set, Material.name material⟩ ∉ selectedAt stage.layers master)
    (hrun : (materials.forM (addMaterial master set)).run stage = .ok () later) :
    stage.ExtendsTo later ∧ (materials ≠ [] → ∀ place path spec,
      stage.spec? place path = some spec → later.spec? place path = some
        (if place = stage.target.layer then written master set materials path spec else spec)) := by
  induction materials generalizing stage with
  | nil =>
      obtain ⟨-, rfl⟩ := Edit.run_pure_eq_ok.mp hrun
      exact ⟨.refl _, fun hne => absurd rfl hne⟩
  | cons material rest ih =>
      obtain ⟨between, hfirst, hrest⟩ := Edit.run_for_m_cons_eq_ok.mp hrun
      obtain ⟨hplace, rfl⟩ := added_of_run_add_material hplain hfirst
      obtain ⟨hspellable, hmaterialRoot⟩ := hmaterials material List.mem_cons_self
      have hadded : stage.ExtendsTo (added stage stage.target.layer master set material) :=
        extends_to_added hroot hmaster hset hspellable hmaterialRoot
          (hfree material List.mem_cons_self)
      -- The next material finds the same target and the same selections.
      have hfreeRest : ∀ other ∈ rest, ⟨set, Material.name other⟩ ∉
          selectedAt (added stage stage.target.layer master set material).layers master := by
        intro other hother
        rw [hadded.extended.selected_at_eq]
        exact hfree other (List.mem_cons_of_mem _ hother)
      obtain ⟨hextends, hspecs⟩ := ih (by rwa [hadded.target_eq])
        (fun other hother => hmaterials other (List.mem_cons_of_mem _ hother))
        (List.nodup_cons.mp hdistinct).2 hfreeRest hrest
      rw [hadded.target_eq] at hspecs
      refine ⟨hadded.trans hextends, fun _ place path spec hspec => ?_⟩
      have hpos := PrimPath.is_root_eq_false_iff.mp hroot
      have hbetween : (added stage stage.target.layer master set material).spec? place path =
          some (if place = stage.target.layer then written master set [material] path spec
            else spec) := spec_added_of_some hplace hpos hspec
      cases rest with
      | nil =>
          obtain ⟨-, rfl⟩ := Edit.run_pure_eq_ok.mp hrest
          exact hbetween
      | cons next others =>
          rw [hspecs (List.cons_ne_nil _ _) place path _ hbetween]
          by_cases hthere : place = stage.target.layer
          · simp only [hthere, if_true]
            exact congrArg some (written_cons hpos hdistinct path spec)
          · simp only [hthere, if_false]

/-- A stage whose selections are declared is extended by making master variants, and the specs that
are there are rewritten. -/
theorem extends_to_of_run_create {set : Option String} (hplain : stage.target.redirections = [])
    (hmaster : master.Spellable) (hmaterials : ∀ material ∈ materials, material.Spellable)
    (hselections : stage.SelectionsDeclared)
    (hrun : (create master materials set).run stage = .ok () later) :
    stage.ExtendsTo later ∧ ∀ place path spec, stage.spec? place path = some spec →
      later.spec? place path = some (if place = stage.target.layer then
        written master (set.getD Material.variantSet) materials path spec else spec) := by
  rw [create, Edit.run_bind_eq_ok] at hrun
  simp only [Edit.run_get_eq_ok] at hrun
  obtain ⟨_, _, ⟨rfl, rfl⟩, hrun⟩ := hrun
  rw [Edit.run_bind_eq_ok] at hrun
  simp only [Edit.run_check_eq_ok] at hrun
  obtain ⟨_, _, ⟨hcheck, rfl⟩, hrun⟩ := hrun
  obtain ⟨hne, hprim, hdistinct, hchecked⟩ := check_eq_ok hcheck
  obtain ⟨-, hset, -⟩ := check_eq_ok_iff.mp hcheck
  obtain ⟨hroot, hchoices, -⟩ := compose_is_some_iff.mp hprim
  have hmaterialRoot : ∀ material ∈ materials, material.isRoot = false := by
    intro material hmem
    have htyped := (hchecked material hmem).1
    rw [Material.isMaterial, Stage.isA, Option.any_eq_true] at htyped
    obtain ⟨prim, hcomposed, -⟩ := htyped
    exact (compose_is_some_iff.mp (Option.isSome_of_eq_some hcomposed)).1
  -- A selection that names a new variant would be of one that the master declares already.
  have hfree : ∀ material ∈ materials, ⟨set.getD Material.variantSet, Material.name material⟩ ∉
      selectedAt stage.layers master := by
    intro material hmem hselected
    have hvariant := hselections master _ (Stage.spec_selects_of_mem hchoices hselected)
    rw [has_variant_eq_false_of_check hcheck hmem] at hvariant
    cases hvariant
  obtain ⟨hextends, hspecs⟩ := extends_to_of_run_add_materials hplain hroot hmaster hset
    (fun material hmem => ⟨hmaterials material hmem, hmaterialRoot material hmem⟩) hdistinct hfree
    hrun
  exact ⟨hextends, hspecs hne⟩

end MasterVariant

end LayeredShading
