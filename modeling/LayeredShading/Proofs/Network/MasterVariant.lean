import LayeredShading.Proofs.Composition.Locality
import LayeredShading.Proofs.Network.MasterSpecs
import LayeredShading.Proofs.Network.Mirror

/-!
# Master variants

Once a variant of the master is selected, the only arc from the master and from the prims below it
leads to the material of that variant, and the specs about them say nothing but that. So the master
mirrors the material (`mirrors`), and terminals resolve on it as they do on the material. Chains of
arcs from the material keep away from the master, so they are the same as before anything was
written (`chain_of_prepared`), and their bound still holds.
-/

namespace LayeredShading

namespace MasterVariant

namespace Prepared

open Opinion

variable {base stage : Stage} {master : PrimPath} {set : String} {done : List PrimPath}
  {selection : SortedMap String String}

/-! ## Specs about the master -/

/-- In other layers the master has bare specs, and its variants have none. -/
theorem bare_of_other_layer (h : Prepared base stage master set done selection)
    (hclear : Clear base master done) {place : Nat} (hother : place ≠ base.target.layer)
    {path : PrimPath} (hpath : path.stripChoices = master) {spec : PrimSpec}
    (hspec : stage.spec? place path = some spec) : path = master ∧ spec.Bare := by
  rw [h.elsewhere place path (.inl hother)] at hspec
  obtain ⟨layer, hlayer, hentry⟩ := Stage.entry_of_spec hspec
  exact hclear.bare layer hlayer (path, spec) hentry (by simp [hpath])

/-- Specs about the master and the prims below it are about the master, and they give no type and
no attributes. -/
theorem mute (h : Prepared base stage master set done selection) (hclear : Clear base master done)
    {place : Nat} {path : PrimPath} (hunder : path.stripChoices.isUnder master = true)
    {spec : PrimSpec} (hspec : stage.spec? place path = some spec) :
    path.stripChoices = master ∧ spec.typeName = none ∧ spec.attributes = .empty := by
  have hpath : path.stripChoices = master := by
    by_contra hne
    rw [h.elsewhere place path (.inr hne)] at hspec
    obtain ⟨layer, hlayer, hentry⟩ := Stage.entry_of_spec hspec
    obtain ⟨rfl, -⟩ := hclear.bare layer hlayer (path, spec) hentry hunder
    exact hne (PrimPath.strip_eq_self h.plain)
  by_cases hplace : place = base.target.layer
  · subst hplace
    rcases h.own path spec hpath hspec with ⟨-, bare, hbare, rfl⟩ | ⟨_, -, -, bare, hbare, rfl⟩
    · exact ⟨hpath, hbare.type_name_eq, hbare.attributes_eq⟩
    · exact ⟨hpath, hbare.type_name_eq, hbare.attributes_eq⟩
  · obtain ⟨-, hbare⟩ := h.bare_of_other_layer hclear hplace hpath hspec
    exact ⟨hpath, hbare.type_name_eq, hbare.attributes_eq⟩

/-- Specs above the master declare no arcs and select nothing. -/
theorem quiet_above (h : Prepared base stage master set done selection)
    (hclear : Clear base master done) {above : PrimPath} (hmaster : master.isUnder above = true)
    (hne : above ≠ master) {spec : PrimSpec} (hspec : spec ∈ specsAt stage.layers above) :
    spec.arcTargets = [] ∧ spec.variantSelection = .empty := by
  obtain ⟨place, hspec⟩ := Stage.mem_specs_at.mp hspec
  have haboveSelf : above.stripChoices = above := by
    obtain ⟨rest, hrest⟩ := PrimPath.is_under_iff.mp hmaster
    exact PrimPath.strip_eq_self_of_append (hrest ▸ h.plain)
  rw [h.elsewhere place above (.inr (by rwa [haboveSelf]))] at hspec
  obtain ⟨layer, hlayer, hentry⟩ := Stage.entry_of_spec hspec
  exact hclear.above layer hlayer (above, spec) hentry hmaster hne

/-- A prim on the way to a prim below the master carries no choice. -/
theorem plain_on_the_way (h : Prepared base stage master set done selection)
    {names : List String} {above : PrimPath} (habove : above ∈ (master.descend names).ancestry) :
    above.stripChoices = above := by
  obtain ⟨-, rest, hrest⟩ := PrimPath.mem_ancestry_iff.mp habove
  refine PrimPath.strip_eq_self_of_append (show (above.append rest).hasChoices = false from ?_)
  rw [← hrest, PrimPath.has_choices_descend, h.plain]

/-- Only at the master variants are chosen. -/
theorem choices_eq_nil (h : Prepared base stage master set done selection)
    (hclear : Clear base master done) (names : List String) {above : PrimPath}
    (habove : above ∈ (master.descend names).ancestry) (hne : above ≠ master) :
    choicesAt stage.layers above = [] := by
  apply choices_at_eq_nil
  intro spec hspec
  rcases PrimPath.under_or_above_of_mem_ancestry habove with hunder | hmaster
  · obtain ⟨place, hspec⟩ := Stage.mem_specs_at.mp hspec
    have hself := h.plain_on_the_way habove
    obtain ⟨hmaster, -⟩ := h.mute hclear (by rwa [hself]) hspec
    exact absurd (hself ▸ hmaster) hne
  · exact (h.quiet_above hclear hmaster hne hspec).2

/-- Of the prims on the way to a prim below the master, no other declares arcs. -/
theorem arc_targets_eq_nil (h : Prepared base stage master set done selection)
    (hclear : Clear base master done) (names : List String) {other : PrimPath}
    (hother : other ∈ (master.descend names).ancestry) (hne : other ≠ master) {spec : PrimSpec}
    (hspec : spec ∈ specsOn stage.layers other) : spec.arcTargets = [] := by
  rcases PrimPath.under_or_above_of_mem_ancestry hother with hunder | hmaster
  · obtain ⟨layer, hlayer, site, hsite, hauthored⟩ := mem_specs_on.mp hspec
    have hself := h.plain_on_the_way hother
    have hstrip : site.stripChoices = other := (strip_of_mem_local_sites hsite).trans hself
    obtain ⟨place, hauthored⟩ :=
      Stage.mem_specs_at.mp (List.mem_filterMap.mpr ⟨layer, hlayer, hauthored⟩)
    obtain ⟨hmaster, -⟩ := h.mute hclear (by rwa [hstrip]) hauthored
    exact absurd (hstrip ▸ hmaster) hne
  · rw [specs_on_of_above hmaster hne fun above habove =>
      h.choices_eq_nil hclear [] (by simpa using habove)] at hspec
    exact (h.quiet_above hclear hmaster hne hspec).1

/-- Among the specs at the master one declares the variants, and the others are bare. -/
theorem exists_specs_at_master (h : Prepared base stage master set done selection)
    (hclear : Clear base master done) (hdone : done ≠ []) :
    ∃ front back, ∃ bare : PrimSpec, bare.Bare ∧
      specsAt stage.layers master = front ++
        { bare with variantSets := declaredSets set done, variantSelection := selection } :: back ∧
      ∀ other ∈ front ++ back, other.Bare := by
  obtain ⟨spec, hspec⟩ := Option.isSome_iff_exists.mp (h.declared hdone)
  obtain ⟨hplace, hauthored⟩ := Stage.spec_eq_some_iff.mp hspec
  obtain ⟨bare, hbare, rfl⟩ := h.master_spec hspec
  obtain ⟨front, back, hspecs, hothers⟩ := exists_specs_at_eq hplace hauthored
  refine ⟨front, back, bare, hbare, hspecs, ?_⟩
  intro other hother
  obtain ⟨place, hlt, hne, hauthored⟩ := hothers other hother
  exact (h.bare_of_other_layer hclear hne (PrimPath.strip_eq_self h.plain)
    (Stage.spec_eq_some_iff.mpr ⟨hlt, hauthored⟩)).2

/-- The specs at the master itself declare no arcs. -/
theorem arc_targets_at_master (h : Prepared base stage master set done selection)
    (hclear : Clear base master done) (hdone : done ≠ []) {spec : PrimSpec}
    (hspec : spec ∈ specsAt stage.layers master) : spec.arcTargets = [] := by
  obtain ⟨front, back, bare, hbare, hspecs, hothers⟩ := h.exists_specs_at_master hclear hdone
  rw [hspecs, List.mem_append, List.mem_cons] at hspec
  rcases hspec with hspec | rfl | hspec
  · exact (hothers spec (by simp [hspec])).arc_targets_eq
  · exact hbare.arc_targets_eq
  · exact (hothers spec (by simp [hspec])).arc_targets_eq

/-- The variant for a material has one spec, which refers to it. -/
theorem exists_specs_at_variant (h : Prepared base stage master set done selection)
    (hclear : Clear base master done) (hdistinct : (done.map Material.name).Nodup)
    {material : PrimPath} (hmaterial : material ∈ done) :
    ∃ bare : PrimSpec, bare.Bare ∧ specsAt stage.layers (variantSite master set material) =
      [{ bare with references := [material] }] := by
  obtain ⟨spec, hspec⟩ := Option.isSome_iff_exists.mp (h.referred material hmaterial)
  obtain ⟨hplace, hauthored⟩ := Stage.spec_eq_some_iff.mp hspec
  obtain ⟨other, hother, hname, bare, hbare, rfl⟩ := h.variant_spec hspec
  obtain rfl : material = other :=
    List.inj_on_of_nodup_map hdistinct hmaterial hother hname
  obtain ⟨front, back, hspecs, hothers⟩ := exists_specs_at_eq hplace hauthored
  have hnone : front ++ back = [] := by
    rw [List.eq_nil_iff_forall_not_mem]
    intro other hother
    obtain ⟨place, hlt, hne, hauthored⟩ := hothers other hother
    have hmaster := (h.bare_of_other_layer hclear hne (strip_variant_site h.plain material)
      (Stage.spec_eq_some_iff.mpr ⟨hlt, hauthored⟩)).1
    exact variant_site_ne h.pos material hmaster
  obtain ⟨rfl, rfl⟩ := List.append_eq_nil_iff.mp hnone
  exact ⟨bare, hbare, hspecs⟩

/-- A declared variant that the master selects is the only choice there. -/
theorem choices_at_master {material : PrimPath}
    (h : Prepared base stage master set done
      (SortedMap.empty.insert set (Material.name material)))
    (hclear : Clear base master done) (hmaterial : material ∈ done) :
    choicesAt stage.layers master = [⟨set, Material.name material⟩] := by
  have hdone : done ≠ [] := List.ne_nil_of_mem hmaterial
  obtain ⟨front, back, bare, -, hspecs, hothers⟩ := h.exists_specs_at_master hclear hdone
  refine choices_at_of_single_selection hspecs
    (fun other hother => (hothers other hother).variant_selection_eq) rfl ?_
  have hsets : declaredSets set done = [⟨set, done.map Material.name⟩] := by
    simp [declaredSets, hdone]
  have hname : Material.name material ∈ done.map Material.name :=
    List.mem_map.mpr ⟨material, hmaterial, rfl⟩
  simp [PrimSpec.declares, hsets, hname]

/-! ## The arc from the master -/

/-- The specs of the master declare the arc to the selected material and no other. -/
theorem targets_eq {material : PrimPath}
    (h : Prepared base stage master set done
      (SortedMap.empty.insert set (Material.name material)))
    (hclear : Clear base master done) (hdistinct : (done.map Material.name).Nodup)
    (hmaterial : material ∈ done) :
    references (specsOn stage.layers master) ++ specialized (specsOn stage.layers master) =
      [material] := by
  obtain ⟨variant, hvariant, hvariantSpecs⟩ :=
    h.exists_specs_at_variant hclear hdistinct hmaterial
  have hsites : localSites stage.layers master = [master, variantSite master set material] := by
    have hchoices : ∀ above ∈ (master.append []).ancestry, above ≠ master →
        choicesAt stage.layers above = [] := fun above habove hne =>
      h.choices_eq_nil hclear [] habove hne
    simpa [h.choices_at_master hclear hmaterial, variantSite] using
      local_sites_of_single_chooser h.pos hchoices
  have hon : specsOn stage.layers master =
      specsAt stage.layers master ++ [{ variant with references := [material] }] := by
    rw [specsOn, hsites, List.flatMap_cons, List.flatMap_singleton, hvariantSpecs]
  have hown : ∀ spec ∈ specsAt stage.layers master, spec.arcTargets = [] := fun spec hspec =>
    h.arc_targets_at_master hclear (List.ne_nil_of_mem hmaterial) hspec
  have hreferences : references (specsOn stage.layers master) = [material] := by
    have hnone : (specsAt stage.layers master).flatMap (·.references) = [] :=
      List.flatMap_eq_nil_iff.mpr fun spec hspec =>
        (List.append_eq_nil_iff.mp (hown spec hspec)).1
    rw [references, hon, List.flatMap_append, hnone]
    rfl
  have hspecialized : specialized (specsOn stage.layers master) = [] := by
    apply specialized_eq_nil
    intro spec hspec
    rw [hon, List.mem_append, List.mem_singleton] at hspec
    rcases hspec with hspec | rfl
    · exact (List.append_eq_nil_iff.mp (hown spec hspec)).2
    · exact (List.append_eq_nil_iff.mp hvariant.arc_targets_eq).2
  rw [hreferences, hspecialized, List.append_nil]

/-- No arc leads to the master, above or below it. -/
theorem untargeted (h : Prepared base stage master set done selection)
    (hclear : Clear base master done)
    (hapart : ∀ material ∈ done, master.overlaps material = false) :
    Untargeted stage.layers master := by
  intro layer hlayer entry hentry target htarget
  obtain ⟨path, spec⟩ := entry
  have hspec : spec ∈ specsAt stage.layers path :=
    List.mem_filterMap.mpr ⟨layer, hlayer, SortedMap.get?_eq_some_iff.mpr hentry⟩
  obtain ⟨place, hspec⟩ := Stage.mem_specs_at.mp hspec
  -- What was written refers to the materials; every other arc was there before.
  by_cases hown : place = base.target.layer ∧ path.stripChoices = master
  · obtain ⟨rfl, hpath⟩ := hown
    rcases h.own path spec hpath hspec with
      ⟨-, bare, hbare, rfl⟩ | ⟨material, hmaterial, -, bare, hbare, rfl⟩
    · change target ∈ bare.arcTargets at htarget
      simp [hbare.arc_targets_eq] at htarget
    · have hnone : bare.specializes.getD [] = [] :=
        (List.append_eq_nil_iff.mp hbare.arc_targets_eq).2
      obtain rfl : target = material := by
        simpa [PrimSpec.arcTargets, hnone] using htarget
      rw [PrimPath.overlaps_comm]
      exact hapart target hmaterial
  · rw [h.elsewhere place path (by tauto)] at hspec
    obtain ⟨other, hother, hentry⟩ := Stage.entry_of_spec hspec
    have hstrip := hclear.untargeted other hother (path, spec) hentry target htarget
    by_contra hoverlaps
    have hsame := PrimPath.overlaps_strip (by simpa using hoverlaps : target.overlaps master = true)
    rw [PrimPath.strip_eq_self h.plain, hstrip] at hsame
    cases hsame

/-- Arcs lead away from the master and the prims below it. -/
theorem away_of_arc_step (hclear : Clear base master done) {path source : PrimPath}
    (h : ArcStep base.layers path source) : source.stripChoices.isUnder master = false := by
  obtain ⟨arc, harc, rest, -, rfl⟩ := h.exists_append
  obtain ⟨-, -, spec, hspec, htarget⟩ := exists_of_mem_arcs_from harc
  obtain ⟨layer, hlayer, site, -, hauthored⟩ := mem_specs_on.mp hspec
  have hapart := hclear.untargeted layer hlayer (site, spec)
    (SortedMap.get?_eq_some_iff.mp hauthored) arc.source htarget
  by_contra hunder
  obtain ⟨below, hbelow⟩ := PrimPath.is_under_iff.mp (by simpa using hunder)
  rw [PrimPath.overlaps_of_append_eq hbelow] at hapart
  cases hapart

/-- A chain that starts away from the master is as it was before anything was written. -/
theorem chain_of_prepared (h : Prepared base stage master set done selection)
    (hclear : Clear base master done) {path : PrimPath} {rest : List PrimPath}
    (haway : path.stripChoices.isUnder master = false)
    (hchain : ArcChain stage.layers (path :: rest)) : ArcChain base.layers (path :: rest) := by
  -- A step never leads to the master, so the whole chain stays where nothing was written.
  refine hchain.of_same_arcs (fun path => path.stripChoices.isUnder master = false) ?_
    (fun _ _ hstep => away_of_arc_step hclear hstep) haway
  intro path haway
  apply arcs_from_of_same_specs
  intro above habove site hsite
  obtain ⟨-, below, rfl⟩ := PrimPath.mem_ancestry_iff.mp habove
  have hne : site.stripChoices ≠ master := by
    intro hmaster
    rw [PrimPath.strip_append, ← hsite, hmaster, PrimPath.is_under_append] at haway
    cases haway
  apply specs_at_congr h.length_eq
  intro place hplace hbase
  rw [← Stage.spec_eq hplace, ← Stage.spec_eq hbase, h.elsewhere place site (.inr hne)]

/-- The master with a variant selected mirrors the material of the variant. -/
theorem mirrors {material : PrimPath}
    (h : Prepared base stage master set done
      (SortedMap.empty.insert set (Material.name material)))
    (hclear : Clear base master done) (hdistinct : (done.map Material.name).Nodup)
    (hapart : ∀ other ∈ done, master.overlaps other = false) (hmaterial : material ∈ done)
    (hisMaterial : Material.isMaterial base material = true) :
    Mirrors stage material master := by
  have hmaterialPlain : material.hasChoices = false := by
    obtain ⟨prim, hprim, -⟩ := (Option.any_eq_true _ _).mp hisMaterial
    exact (compose_is_some_iff.mp (Option.isSome_of_eq_some hprim)).2.1
  have hmaterialApart : material.overlaps master = false := by
    rw [PrimPath.overlaps_comm]
    exact hapart material hmaterial
  have hoverlays : ∀ names, Overlays (ownOpinions stage.layers master names) material master
      (stage.prim? (material.descend names)) (stage.prim? (master.descend names)) := by
    intro names
    refine overlays_of_single_target h.plain hmaterialPlain
      (fun above habove hne => h.choices_eq_nil hclear names habove hne)
      (fun other hother hne spec hspec => h.arc_targets_eq_nil hclear names hother hne hspec)
      (h.targets_eq hclear hdistinct hmaterial) hmaterialApart (h.untargeted hclear hapart) ?_
    intro chain hchain
    have haway : (material.descend names).stripChoices.isUnder master = false := by
      by_contra hunder
      obtain ⟨below, hbelow⟩ := PrimPath.is_under_iff.mp (by simpa using hunder)
      rw [PrimPath.strip_eq_self (by rw [PrimPath.has_choices_descend, hmaterialPlain])] at hbelow
      exact PrimPath.append_ne_append hmaterialApart _ _ hbelow
    exact hclear.short material hmaterial names chain (h.chain_of_prepared hclear haway hchain)
  -- The own opinions are specs about the master, which give no types and attributes.
  refine Mirrors.of_overlays hmaterialPlain h.plain hoverlays ?_
  intro names opinion hopinion
  obtain ⟨site, hsite, hopinion⟩ := exists_site_of_own_opinion hopinion
  have hspec : opinion.spec ∈ specsAt stage.layers site := by
    rw [← map_spec_at_site .identity]
    exact List.mem_map.mpr ⟨opinion, hopinion, rfl⟩
  obtain ⟨place, hspec⟩ := Stage.mem_specs_at.mp hspec
  have hunder : site.stripChoices.isUnder master = true := by
    rw [hsite, PrimPath.strip_eq_self (by rw [PrimPath.has_choices_descend, h.plain])]
    exact PrimPath.is_under_append _ _
  exact (h.mute hclear hunder hspec).2

/-! ## The declared variants -/

/-- Before a variant is selected, no choice is made on the way to the master. -/
theorem choices_of_unselected (h : Prepared base stage master set done .empty)
    (hclear : Clear base master done) (hdone : done ≠ []) {above : PrimPath}
    (habove : above ∈ master.ancestry) : choicesAt stage.layers above = [] := by
  by_cases hmaster : above = master
  · obtain ⟨front, back, bare, -, hspecs, hothers⟩ := h.exists_specs_at_master hclear hdone
    rw [hmaster]
    apply choices_at_eq_nil
    intro spec hspec
    rw [hspecs, List.mem_append, List.mem_cons] at hspec
    rcases hspec with hspec | rfl | hspec
    · exact (hothers spec (by simp [hspec])).variant_selection_eq
    · rfl
    · exact (hothers spec (by simp [hspec])).variant_selection_eq
  · exact h.choices_eq_nil hclear [] (by simpa using habove) hmaster

/-- Before a variant is selected, the opinions on the master are the specs at its path. -/
theorem gather_of_unselected (h : Prepared base stage master set done .empty)
    (hclear : Clear base master done) (hdone : done ≠ []) :
    (gather stage.layers master).map (·.spec) = specsAt stage.layers master := by
  have hsites : localSites stage.layers master = [master] :=
    local_sites_of_no_choice fun above habove => h.choices_of_unselected hclear hdone habove
  have harcs : arcsFrom stage.layers master = [] := by
    apply arcs_from_eq_nil
    intro owner howner spec hspec
    by_cases hmaster : owner = master
    · subst hmaster
      rw [specsOn, hsites, List.flatMap_singleton] at hspec
      exact h.arc_targets_at_master hclear hdone hspec
    · exact h.arc_targets_eq_nil hclear [] (by simpa using howner) hmaster hspec
  have hdirect : direct stage.layers .identity master =
      (localSites stage.layers master).flatMap (atSite stage.layers .identity) := rfl
  rw [gather_of_no_arc harcs, hdirect, hsites, List.flatMap_singleton, map_spec_at_site]

/-- Before a variant is selected, the set declares the names of the materials in their order. -/
theorem exists_find_variant_set (h : Prepared base stage master set done .empty)
    (hclear : Clear base master done) (hdone : done ≠ [])
    (hdistinct : (done.map Material.name).Nodup) :
    ∃ composed, VariantSet.find? stage master set = some composed ∧
      composed.variants = done.map Material.name := by
  obtain ⟨front, back, bare, -, hspecs, hothers⟩ := h.exists_specs_at_master hclear hdone
  have hgather := h.gather_of_unselected hclear hdone
  have hsome : (compose stage.layers master).isSome = true := by
    refine compose_is_some_iff.mpr ⟨PrimPath.is_root_eq_false_iff.mpr h.pos, h.plain, ?_⟩
    intro hnil
    rw [hnil, hspecs] at hgather
    simp at hgather
  obtain ⟨prim, hprim⟩ := Option.isSome_iff_exists.mp hsome
  have hdeclared : declaredSets set done = [⟨set, done.map Material.name⟩] := by
    simp [declaredSets, hdone]
  have hsets : (overlayAll (gather stage.layers master)).variantSets =
      [⟨set, done.map Material.name⟩] := by
    have hmap : (gather stage.layers master).map (·.spec.variantSets) =
        (specsAt stage.layers master).map (·.variantSets) := by
      rw [← hgather, List.map_map]
      rfl
    rw [overlay_all_variant_sets, hmap, hspecs]
    exact variant_sets_of_single (fun other hother => (hothers other hother).variant_sets_eq)
      hdeclared hdistinct
  have hfind : VariantSet.find? stage master set = prim.variantSet? set := by
    rw [VariantSet.find?, Stage.prim?, hprim]
    rfl
  rw [hfind, compose_eq_some hprim]
  simp [ComposedPrim.variantSet?, ComposedPrim.ofSpec, hsets]

end Prepared

/-- Making master variants declares the materials by their names and in their order. Whichever of
them is selected then, every terminal resolves on the master for all render contexts exactly if it
resolves on the material, and to the same shader output or to its mirror below the master. -/
theorem create_resolves_like_sources {stage created : Stage} {master : PrimPath}
    {materials : List PrimPath} {set : Option String} (hclear : Clear stage master materials)
    (hcreate : (create master materials set).run stage = .ok () created) :
    VariantSet.variants created master (set.getD Material.variantSet) =
        materials.map Material.name ∧
      ∀ material ∈ materials, ∃ selected,
        (Edit.selectVariant master ⟨set.getD Material.variantSet, Material.name material⟩).run
            created = .ok () selected ∧
          ∀ kind contexts, Option.Rel (ShaderOutput.Mirrored material master)
            (Material.resolve selected master kind contexts)
            (Material.resolve selected material kind contexts) := by
  obtain ⟨hcheck, hprepared⟩ := prepared_of_run_create hclear hcreate
  obtain ⟨hne, -, hdistinct, hmaterials⟩ := check_eq_ok hcheck
  obtain ⟨composed, hfound, hvariants⟩ := hprepared.exists_find_variant_set hclear hne hdistinct
  refine ⟨by rw [VariantSet.variants, hfound, Option.map_some, Option.getD_some, hvariants], ?_⟩
  intro material hmaterial
  have hplace : stage.target.layer < created.layers.length := by
    obtain ⟨spec, hspec⟩ := Option.isSome_iff_exists.mp (hprepared.declared hne)
    exact (Stage.spec_eq_some_iff.mp hspec).1
  have hselected := hprepared.select hplace
    ⟨set.getD Material.variantSet, Material.name material⟩
  have hhasVariant : VariantSet.hasVariant created master
      ⟨set.getD Material.variantSet, Material.name material⟩ = true := by
    rw [VariantSet.hasVariant, hfound, Option.any_some, ComposedVariantSet.hasVariant, hvariants,
      List.contains_iff_mem]
    exact List.mem_map.mpr ⟨material, hmaterial, rfl⟩
  have hsite : created.target.specPath master = master := by
    rw [hprepared.target_eq, EditTarget.specPath, hclear.target_plain]
    rfl
  refine ⟨_, Edit.run_select_variant_eq_ok.mpr ⟨hhasVariant, hprepared.target_eq ▸ hplace, rfl⟩, ?_⟩
  rw [hsite, hprepared.target_eq]
  exact (hselected.mirrors hclear hdistinct (fun other hother => (hmaterials other hother).2)
    hmaterial (hmaterials material hmaterial).1).resolve_mirrored

/-- A master without specs below it, a material with a shader of its own and one that takes its
network from a base. -/
def looks : Stage :=
  let surface (shader : PrimPath) : SortedMap String AttributeSpec :=
    .ofList [("outputs:surface", ⟨.token, none, some [⟨shader, "outputs:out"⟩], false⟩)]
  let shader : PrimSpec :=
    { PrimSpec.blank .define with
      typeName := some "Shader"
      attributes := .ofList [("outputs:out", ⟨.token, none, none, false⟩)] }
  .ofLayers [⟨"root", .ofList [
    (⟨[.plain "Master"]⟩, .blank .define),
    (⟨[.plain "Red"]⟩,
      { PrimSpec.blank .define with
        typeName := some "Material", attributes := surface ⟨[.plain "Red", .plain "Paint"]⟩ }),
    (⟨[.plain "Red", .plain "Paint"]⟩, shader),
    (⟨[.plain "Blue"]⟩, { PrimSpec.blank .define with specializes := some [⟨[.plain "Base"]⟩] }),
    (⟨[.plain "Base"]⟩,
      { PrimSpec.blank .define with
        typeName := some "Material", attributes := surface ⟨[.plain "Base", .plain "Glass"]⟩ }),
    (⟨[.plain "Base", .plain "Glass"]⟩, shader)]⟩]

/-- There nothing stands in the way, making the variants succeeds, and with the second one selected
the master resolves like its material. -/
theorem looks_resolve_like_sources :
    Clear looks ⟨[.plain "Master"]⟩ [⟨[.plain "Red"]⟩, ⟨[.plain "Blue"]⟩] ∧ ∃ created,
      (create ⟨[.plain "Master"]⟩ [⟨[.plain "Red"]⟩, ⟨[.plain "Blue"]⟩] none).run looks =
        .ok () created ∧
      VariantSet.variants created ⟨[.plain "Master"]⟩ "materialVariant" = ["Red", "Blue"] ∧
      ∃ selected,
        (Edit.selectVariant ⟨[.plain "Master"]⟩ ⟨"materialVariant", "Blue"⟩).run created =
          .ok () selected ∧
        ∀ kind contexts,
          Option.Rel (ShaderOutput.Mirrored ⟨[.plain "Blue"]⟩ ⟨[.plain "Master"]⟩)
            (Material.resolve selected ⟨[.plain "Master"]⟩ kind contexts)
            (Material.resolve selected ⟨[.plain "Blue"]⟩ kind contexts) := by
  have hranked : Opinion.Ranked looks.layers fun name => if name = "Blue" then 1 else 0 := by
    unfold Opinion.Ranked
    decide
  have hclear : Clear looks ⟨[.plain "Master"]⟩ [⟨[.plain "Red"]⟩, ⟨[.plain "Blue"]⟩] := by
    refine ⟨rfl, by decide, by decide, by decide, ?_⟩
    intro material _ names rest hchain
    have hle : rest.length ≤ if (material.descend names).topName = "Blue" then 1 else 0 :=
      hchain.length_le_rank hranked
    have hrest : rest.length ≤ 1 := hle.trans (by split <;> omega)
    exact Nat.lt_of_le_of_lt (Nat.succ_le_succ hrest) (by decide)
  have hruns : ((create ⟨[.plain "Master"]⟩ [⟨[.plain "Red"]⟩, ⟨[.plain "Blue"]⟩] none).run'
      looks).isSome = true := by
    decide
  cases hcreate : (create ⟨[.plain "Master"]⟩ [⟨[.plain "Red"]⟩, ⟨[.plain "Blue"]⟩] none).run
      looks with
  | error error between =>
      delta EStateM.run' at hruns
      rw [hcreate] at hruns
      cases hruns
  | ok result created =>
      obtain ⟨hvariants, hresolves⟩ := create_resolves_like_sources hclear hcreate
      exact ⟨hclear, created, rfl, hvariants, hresolves ⟨[.plain "Blue"]⟩ (by decide)⟩

end MasterVariant

end LayeredShading
