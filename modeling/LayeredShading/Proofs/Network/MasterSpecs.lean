import LayeredShading.Network.MasterVariant
import LayeredShading.Proofs.Composition.Extent
import LayeredShading.Proofs.Composition.SingleArc
import LayeredShading.Proofs.Stage.Editing

/-!
# Specs of a master material

Making master variants writes a spec at the master, which declares the variants, and one spec in
each variant, which refers to its material. `Prepared` says what the specs of the stage are while
this goes on: those about other prims, and those of other layers, are as before. Adding a material
keeps it (`Prepared.add`), so it holds at the end (`prepared_of_run_create`), and selecting a
variant changes no more than the selection (`Prepared.select`).
-/

namespace LayeredShading

/-- A spec says nothing beyond its specifier and its metadata. -/
structure PrimSpec.Bare (spec : PrimSpec) : Prop where
  type_name_eq : spec.typeName = none
  attributes_eq : spec.attributes = .empty
  arc_targets_eq : spec.arcTargets = []
  variant_sets_eq : spec.variantSets = []
  variant_selection_eq : spec.variantSelection = .empty

instance (spec : PrimSpec) : Decidable spec.Bare :=
  decidable_of_iff
    (spec.typeName = none ∧ spec.attributes = .empty ∧ spec.arcTargets = [] ∧
      spec.variantSets = [] ∧ spec.variantSelection = .empty)
    ⟨fun ⟨htype, hattributes, harcs, hsets, hselection⟩ =>
        ⟨htype, hattributes, harcs, hsets, hselection⟩,
      fun ⟨htype, hattributes, harcs, hsets, hselection⟩ =>
        ⟨htype, hattributes, harcs, hsets, hselection⟩⟩

theorem PrimSpec.bare_blank (specifier : Specifier) : (blank specifier).Bare :=
  ⟨rfl, rfl, rfl, rfl, rfl⟩

/-- The specifier of a bare spec does not matter. -/
theorem PrimSpec.Bare.with_specifier {spec : PrimSpec} (h : spec.Bare) (specifier : Specifier) :
    ({ spec with specifier } : PrimSpec).Bare :=
  ⟨h.type_name_eq, h.attributes_eq, h.arc_targets_eq, h.variant_sets_eq, h.variant_selection_eq⟩

namespace MasterVariant

/-! ## What is checked -/

/-- A checked material is one, lies apart from the master and has a name that is not taken and not
that of a variant. -/
theorem check_material_eq_ok {stage : Stage} {master : PrimPath}
    {existing : Option ComposedVariantSet} {taken names : List String} {material : PrimPath}
    (h : checkMaterial stage master existing taken material = .ok names) :
    Material.isMaterial stage material = true ∧ master.overlaps material = false ∧
      Material.name material ∉ taken ∧
      existing.any (fun set => set.hasVariant (Material.name material)) = false ∧
      names = taken ++ [Material.name material] := by
  simp only [checkMaterial] at h
  split at h
  · cases h
  · next hmaterial =>
      split at h
      · cases h
      · next hoverlaps =>
          split at h
          · cases h
          · next htaken =>
              simp only [Bool.or_eq_true, List.contains_iff_mem, not_or] at htaken
              exact ⟨by simpa using hmaterial, by simpa using hoverlaps, htaken.1,
                Bool.not_eq_true _ ▸ htaken.2, (Except.ok.inj h).symm⟩

/-- Checked materials lie apart from the master, and their names are those of no variants. No two
have the same name. -/
theorem check_materials_eq_ok {stage : Stage} {master : PrimPath}
    {existing : Option ComposedVariantSet} {taken names : List String} {materials : List PrimPath}
    (h : materials.foldlM (checkMaterial stage master existing) taken = .ok names)
    (htaken : taken.Nodup) :
    (taken ++ materials.map Material.name).Nodup ∧ ∀ material ∈ materials,
      Material.isMaterial stage material = true ∧ master.overlaps material = false ∧
        existing.any (fun set => set.hasVariant (Material.name material)) = false := by
  induction materials generalizing taken with
  | nil => simpa using htaken
  | cons material rest ih =>
      rw [List.foldlM_cons] at h
      cases hfirst : checkMaterial stage master existing taken material with
      | error error =>
          rw [hfirst] at h
          cases h
      | ok between =>
          rw [hfirst] at h
          obtain ⟨hmaterial, hapart, hnew, hfree, rfl⟩ := check_material_eq_ok hfirst
          have hbetween : (taken ++ [Material.name material]).Nodup := by
            rw [List.nodup_append]
            refine ⟨htaken, List.nodup_singleton _, ?_⟩
            intro name hname other hother hsame
            rw [List.mem_singleton.mp hother] at hsame
            exact hnew (hsame ▸ hname)
          obtain ⟨hdistinct, hrest⟩ := ih h hbetween
          refine ⟨by simpa using hdistinct, ?_⟩
          intro other hother
          rcases List.mem_cons.mp hother with rfl | hother
          · exact ⟨hmaterial, hapart, hfree⟩
          · exact hrest other hother

/-- The check goes through the materials one after the other. -/
theorem check_eq_ok_iff {stage : Stage} {master : PrimPath} {materials : List PrimPath}
    {set : String} :
    check stage master materials set = .ok () ↔
      materials ≠ [] ∧ isPrimName set = true ∧ ∃ composed names,
        stage.prim? master = some composed ∧
          materials.foldlM (checkMaterial stage master (composed.variantSet? set)) [] =
            .ok names := by
  cases materials with
  | nil => exact iff_of_false nofun fun h => h.1 rfl
  | cons material rest =>
      simp only [check, List.isEmpty_cons]
      cases hset : isPrimName set with
      | false => exact iff_of_false nofun fun h => nomatch h.2.1
      | true =>
          cases hprim : stage.prim? master with
          | none => exact iff_of_false nofun fun ⟨_, _, _, _, h, _⟩ => nomatch h
          | some composed =>
              simp only [Option.some.injEq, exists_and_left, exists_eq_left']
              generalize (material :: rest).foldlM
                (checkMaterial stage master (composed.variantSet? set)) [] = names
              cases names <;> simp [bind, Except.bind, pure, Except.pure]

/-- What passes the check is an existing master and a list of materials apart from it, with names
of their own. -/
theorem check_eq_ok {stage : Stage} {master : PrimPath} {materials : List PrimPath} {set : String}
    (h : check stage master materials set = .ok ()) :
    materials ≠ [] ∧ (stage.prim? master).isSome = true ∧
      (materials.map Material.name).Nodup ∧ ∀ material ∈ materials,
        Material.isMaterial stage material = true ∧ master.overlaps material = false := by
  obtain ⟨hne, -, composed, names, hprim, hnames⟩ := check_eq_ok_iff.mp h
  obtain ⟨hdistinct, hmaterials⟩ := check_materials_eq_ok hnames List.nodup_nil
  refine ⟨hne, Option.isSome_of_eq_some hprim, by simpa using hdistinct, ?_⟩
  exact fun material hmem => ⟨(hmaterials material hmem).1, (hmaterials material hmem).2.1⟩

/-- No variant of the master has the name of a material that passes the check. -/
theorem has_variant_eq_false_of_check {stage : Stage} {master : PrimPath}
    {materials : List PrimPath} {set : String} (h : check stage master materials set = .ok ())
    {material : PrimPath} (hmem : material ∈ materials) :
    VariantSet.hasVariant stage master ⟨set, Material.name material⟩ = false := by
  obtain ⟨-, -, composed, names, hprim, hnames⟩ := check_eq_ok_iff.mp h
  have hfree := ((check_materials_eq_ok hnames List.nodup_nil).2 material hmem).2.2
  have hfind : VariantSet.find? stage master set = composed.variantSet? set := by
    rw [VariantSet.find?, hprim]
    rfl
  rw [VariantSet.hasVariant, hfind]
  exact hfree

/-! ## What is written -/

/-- Where the spec of the variant for a material stands. -/
def variantSite (master : PrimPath) (set : String) (material : PrimPath) : PrimPath :=
  master.choose master.depth ⟨set, Material.name material⟩

/-- The stage with a material added to the master: its variant is declared at the master, and refers
to it. -/
def added (stage : Stage) (place : Nat) (master : PrimPath) (set : String) (material : PrimPath) :
    Stage :=
  (stage.changed place master .override fun spec =>
    spec.addVariants set [Material.name material]).changed place
      (variantSite master set material) .override fun spec =>
        { spec with references := addNew spec.references material }

/-- Adding a material succeeds only in a layer of the stage. -/
theorem added_of_run_add_material {stage after : Stage} {master material : PrimPath}
    {set : String} (hplain : stage.target.redirections = [])
    (h : (addMaterial master set material).run stage = .ok () after) :
    stage.target.layer < stage.layers.length ∧
      added stage stage.target.layer master set material = after := by
  have hsite : stage.target.specPath master = master := by
    rw [EditTarget.specPath, hplain]
    rfl
  have hvariantSite : ∀ choice, (stage.target.redirect master choice).specPath master =
      master.choose master.depth choice := by
    intro choice
    simp [EditTarget.specPath, EditTarget.redirect, hplain]
  rw [addMaterial, Edit.run_bind_eq_ok] at h
  obtain ⟨_, declared, hdeclare, h⟩ := h
  obtain ⟨-, -, -, hlt, rfl⟩ := Edit.run_add_variant_eq_ok.mp hdeclare
  obtain ⟨between, hrefer, rfl⟩ := Edit.run_of_run_during h
  obtain ⟨-, -, -, rfl⟩ := Edit.run_add_reference_eq_ok.mp hrefer
  refine ⟨hlt, ?_⟩
  rw [hsite]
  show _ = ((stage.changed stage.target.layer master .override fun spec =>
    spec.addVariants set [Material.name material]).changed stage.target.layer
      ((stage.target.redirect master ⟨set, Material.name material⟩).specPath master) .override _)
  rw [hvariantSite]
  rfl

/-- Nothing stands in the way of variants for some materials: authoring is not redirected, the
master and the prims below it have bare specs only, at the master itself, no prim above it declares
arcs or selects variants, no arc leads to the master, above or below it, and no chain of arcs from a
material or below one is too long for the master to be put in front of it. -/
structure Clear (stage : Stage) (master : PrimPath) (materials : List PrimPath) : Prop where
  target_plain : stage.target.redirections = []
  bare : ∀ layer ∈ stage.layers, ∀ entry ∈ layer.specs.entries,
    entry.1.stripChoices.isUnder master = true → entry.1 = master ∧ entry.2.Bare
  above : ∀ layer ∈ stage.layers, ∀ entry ∈ layer.specs.entries, master.isUnder entry.1 = true →
    entry.1 ≠ master → entry.2.arcTargets = [] ∧ entry.2.variantSelection = .empty
  untargeted : ∀ layer ∈ stage.layers, ∀ entry ∈ layer.specs.entries,
    ∀ target ∈ entry.2.arcTargets, target.stripChoices.overlaps master = false
  short : ∀ material ∈ materials, ∀ names rest,
    Opinion.ArcChain stage.layers (material.descend names :: rest) → rest.length + 1 < maxArcDepth

/-- The variant set of the materials that have been added. -/
def declaredSets (set : String) (done : List PrimPath) : List VariantSetSpec :=
  if done.isEmpty then [] else [⟨set, done.map Material.name⟩]

/-- A spec about the master is that of the master, which declares the variants, or that of a
variant, which refers to its material. -/
def OwnSpec (master : PrimPath) (set : String) (done : List PrimPath)
    (selection : SortedMap String String) (path : PrimPath) (spec : PrimSpec) : Prop :=
  (path = master ∧ ∃ bare : PrimSpec, bare.Bare ∧
    spec = { bare with variantSets := declaredSets set done, variantSelection := selection }) ∨
  ∃ material ∈ done, path = variantSite master set material ∧
    ∃ bare : PrimSpec, bare.Bare ∧ spec = { bare with references := [material] }

/-- A stage is as it was but for the variants that have been added to the master, and for the
selection there. -/
structure Prepared (base stage : Stage) (master : PrimPath) (set : String) (done : List PrimPath)
    (selection : SortedMap String String) : Prop where
  pos : 0 < master.depth
  plain : master.hasChoices = false
  target_eq : stage.target = base.target
  length_eq : stage.layers.length = base.layers.length
  elsewhere : ∀ place path, place ≠ base.target.layer ∨ path.stripChoices ≠ master →
    stage.spec? place path = base.spec? place path
  own : ∀ path spec, path.stripChoices = master →
    stage.spec? base.target.layer path = some spec → OwnSpec master set done selection path spec
  declared : done ≠ [] → (stage.spec? base.target.layer master).isSome = true
  referred : ∀ material ∈ done,
    (stage.spec? base.target.layer (variantSite master set material)).isSome = true

/-- A stage on which nothing stands in the way is prepared for the first material. -/
theorem Clear.prepared {stage : Stage} {master : PrimPath} {materials : List PrimPath}
    (h : Clear stage master materials) (hpos : 0 < master.depth)
    (hplain : master.hasChoices = false) (set : String) :
    Prepared stage stage master set [] .empty := by
  refine ⟨hpos, hplain, rfl, rfl, fun _ _ _ => rfl, ?_, fun hne => absurd rfl hne, by simp⟩
  intro path spec hpath hspec
  obtain ⟨layer, hlayer, hentry⟩ := Stage.entry_of_spec hspec
  obtain ⟨hmaster, hbare⟩ := h.bare layer hlayer (path, spec) hentry (by simp [hpath])
  refine .inl ⟨hmaster, spec, hbare, ?_⟩
  have hsets := hbare.variant_sets_eq
  have hselection := hbare.variant_selection_eq
  cases spec
  simp_all [declaredSets]

section Sites

variable {master : PrimPath} {set : String}

/-- A variant stands apart from the master. -/
theorem variant_site_ne (hpos : 0 < master.depth) (material : PrimPath) :
    variantSite master set material ≠ master :=
  PrimPath.choose_ne_self hpos (Nat.le_refl _) _

/-- A variant is about the master. -/
theorem strip_variant_site (hplain : master.hasChoices = false) (material : PrimPath) :
    (variantSite master set material).stripChoices = master := by
  rw [variantSite, PrimPath.strip_choose, PrimPath.strip_eq_self hplain]

/-- Materials with different names have different variants. -/
theorem name_eq_of_variant_site_eq (hpos : 0 < master.depth) {first second : PrimPath}
    (h : variantSite master set first = variantSite master set second) :
    Material.name first = Material.name second := by
  have hchoice := (PrimPath.choose_inj hpos (Nat.le_refl _)).mp h
  exact congrArg VariantChoice.variant hchoice

/-- One more name is declared at the end. -/
theorem declared_sets_append {done : List PrimPath} {material : PrimPath}
    (hnew : Material.name material ∉ done.map Material.name) :
    changeVariantSet set (addAllNew · [Material.name material]) (declaredSets set done) =
      declaredSets set (done ++ [material]) := by
  have hadded : addAllNew (done.map Material.name) [Material.name material] =
      done.map Material.name ++ [Material.name material] := if_neg hnew
  cases done with
  | nil => rfl
  | cons first rest =>
      show changeVariantSet set _ [⟨set, (first :: rest).map Material.name⟩] = _
      rw [changeVariantSet, if_pos rfl, hadded]
      simp [declaredSets]

end Sites

namespace Prepared

variable {base stage : Stage} {master : PrimPath} {set : String} {done : List PrimPath}
  {selection : SortedMap String String}

/-- The master's spec declares the variants that have been added, if there is one yet. -/
theorem master_spec (h : Prepared base stage master set done selection) {spec : PrimSpec}
    (hspec : stage.spec? base.target.layer master = some spec) :
    ∃ bare : PrimSpec, bare.Bare ∧
      spec = { bare with variantSets := declaredSets set done, variantSelection := selection } := by
  rcases h.own master spec (PrimPath.strip_eq_self h.plain) hspec with
    ⟨-, hbare⟩ | ⟨other, -, hsite, -⟩
  · exact hbare
  · exact absurd hsite.symm (variant_site_ne h.pos other)

/-- The spec of a variant refers to a material of its name. -/
theorem variant_spec (h : Prepared base stage master set done selection) {material : PrimPath}
    {spec : PrimSpec}
    (hspec : stage.spec? base.target.layer (variantSite master set material) = some spec) :
    ∃ other ∈ done, Material.name material = Material.name other ∧
      ∃ bare : PrimSpec, bare.Bare ∧ spec = { bare with references := [other] } := by
  rcases h.own _ spec (strip_variant_site h.plain material) hspec with
    ⟨hsite, -⟩ | ⟨other, hother, hsite, hbare⟩
  · exact absurd hsite (variant_site_ne h.pos material)
  · exact ⟨other, hother, name_eq_of_variant_site_eq h.pos hsite, hbare⟩

/-- What a change of the master's spec starts from. -/
theorem exists_bare_of_master (h : Prepared base stage master set done .empty) :
    ∃ bare : PrimSpec, bare.Bare ∧
      (stage.spec? base.target.layer master).getD (.blank .override) =
        { bare with variantSets := declaredSets set done, variantSelection := .empty } := by
  cases hspec : stage.spec? base.target.layer master with
  | some spec => exact h.master_spec hspec
  | none =>
      have hdone : done = [] := by
        by_contra hne
        simpa [hspec] using h.declared hne
      exact ⟨.blank .override, PrimSpec.bare_blank .override, by rw [hdone]; rfl⟩

/-- The specs after a material has been added whose variant has no spec yet. -/
theorem spec_added {place : Nat} (hplace : place < stage.layers.length) (hpos : 0 < master.depth)
    {material : PrimPath} (habsent : stage.spec? place (variantSite master set material) = none)
    (other : Nat) (path : PrimPath) :
    (added stage place master set material).spec? other path =
      if other = place ∧ path = variantSite master set material then
        some { PrimSpec.blank .override with references := [material] }
      else if other = place ∧ path = master then
        let own := (stage.spec? place master).getD (.blank .override)
        some { own with
          specifier := own.specifier.join .override
          variantSets :=
            changeVariantSet set (addAllNew · [Material.name material]) own.variantSets }
      else stage.spec? other path := by
  have hfirst : ∀ other path, (stage.changed place master .override fun spec =>
      spec.addVariants set [Material.name material]).spec? other path = _ :=
    Stage.spec_changed hplace
  have hstill : (stage.changed place master .override fun spec =>
      spec.addVariants set [Material.name material]).spec? place
        (variantSite master set material) = none := by
    rw [hfirst, if_neg (fun hsame => variant_site_ne hpos material hsame.2), habsent]
  rw [added, Stage.spec_changed (by simpa using hplace), hstill, hfirst]
  rfl

/-- The variant of a material with a new name has no spec yet. -/
theorem spec_of_new_variant (h : Prepared base stage master set done selection)
    {material : PrimPath} (hnew : Material.name material ∉ done.map Material.name) :
    stage.spec? base.target.layer (variantSite master set material) = none := by
  by_contra hne
  obtain ⟨spec, hspec⟩ := Option.ne_none_iff_exists'.mp hne
  obtain ⟨other, hother, hname, -⟩ := h.variant_spec hspec
  exact hnew (List.mem_map.mpr ⟨other, hother, hname.symm⟩)

/-- The specs about the master after a material with a new name has been added. -/
theorem own_spec_added (h : Prepared base stage master set done .empty) {material : PrimPath}
    (hnew : Material.name material ∉ done.map Material.name)
    (hplace : base.target.layer < stage.layers.length) {path : PrimPath} {spec : PrimSpec}
    (hpath : path.stripChoices = master)
    (hspec : (added stage base.target.layer master set material).spec? base.target.layer path =
      some spec) :
    OwnSpec master set (done ++ [material]) .empty path spec := by
  rw [spec_added hplace h.pos (h.spec_of_new_variant hnew)] at hspec
  split at hspec
  · next hat =>
      obtain rfl := Option.some.inj hspec
      exact .inr ⟨material, by simp, hat.2, _, PrimSpec.bare_blank .override, rfl⟩
  · split at hspec
    · next hat =>
        obtain ⟨bare, hbare, hopen⟩ := h.exists_bare_of_master
        obtain rfl := Option.some.inj hspec
        refine .inl ⟨hat.2, _, hbare.with_specifier (bare.specifier.join .override), ?_⟩
        simp only [hopen, declared_sets_append hnew]
    · next hmaster =>
        rcases h.own path spec hpath hspec with ⟨rfl, -⟩ | ⟨other, hother, hsite, hbare⟩
        · exact absurd ⟨rfl, rfl⟩ hmaster
        · exact .inr ⟨other, by simp [hother], hsite, hbare⟩

/-- Adding a material with a new name keeps the stage prepared. -/
theorem add (h : Prepared base stage master set done .empty) {material : PrimPath}
    (hnew : Material.name material ∉ done.map Material.name)
    (hplace : base.target.layer < stage.layers.length) :
    Prepared base (added stage base.target.layer master set material) master set
      (done ++ [material]) .empty := by
  have hspec := spec_added hplace h.pos (h.spec_of_new_variant hnew)
  refine ⟨h.pos, h.plain, h.target_eq, by simpa [added] using h.length_eq, ?_,
    fun path spec => h.own_spec_added hnew hplace, ?_, ?_⟩
  · intro place path helse
    have hapart : ∀ site, site.stripChoices = master →
        ¬(place = base.target.layer ∧ path = site) := by
      rintro site hsite ⟨hsame, rfl⟩
      rcases helse with helse | helse
      · exact helse hsame
      · exact helse hsite
    rw [hspec, if_neg (hapart _ (strip_variant_site h.plain material)),
      if_neg (hapart _ (PrimPath.strip_eq_self h.plain)), h.elsewhere place path helse]
  · intro _
    rw [hspec, if_neg (fun hsame => variant_site_ne h.pos material hsame.2.symm),
      if_pos ⟨rfl, rfl⟩]
    rfl
  · intro other hother
    rw [hspec]
    split
    · rfl
    · next hat =>
        rcases List.mem_append.mp hother with hother | hother
        · rw [if_neg (fun hsame => variant_site_ne h.pos other hsame.2)]
          exact h.referred other hother
        · rw [List.mem_singleton.mp hother] at hat
          exact absurd ⟨rfl, rfl⟩ hat

/-- Adding materials with new names one after the other keeps the stage prepared. -/
theorem of_run_add_materials {after : Stage} {materials : List PrimPath}
    (h : Prepared base stage master set done .empty)
    (htarget : base.target.redirections = [])
    (hdistinct : ((done ++ materials).map Material.name).Nodup)
    (hrun : (materials.forM (addMaterial master set)).run stage = .ok () after) :
    Prepared base after master set (done ++ materials) .empty := by
  -- The materials move one by one from those still to be added to those that have been.
  induction materials generalizing stage done with
  | nil =>
      obtain ⟨-, rfl⟩ := Edit.run_pure_eq_ok.mp hrun
      simpa using h
  | cons material rest ih =>
      obtain ⟨between, hfirst, hrest⟩ := Edit.run_for_m_cons_eq_ok.mp hrun
      -- Adding a material gives the target back, so the next one is added in the same layer.
      obtain ⟨hplace, rfl⟩ :=
        added_of_run_add_material (by rw [h.target_eq, htarget]) hfirst
      rw [h.target_eq] at hplace hrest
      have hnew : Material.name material ∉ done.map Material.name := by
        intro hmem
        rw [List.map_append, List.map_cons, List.nodup_append] at hdistinct
        exact hdistinct.2.2 _ hmem _ List.mem_cons_self rfl
      have hadded := h.add hnew hplace
      simpa using ih hadded (by simpa using hdistinct) hrest

/-- Selecting a variant changes the selection of the master's spec. -/
theorem select (h : Prepared base stage master set done .empty)
    (hplace : base.target.layer < stage.layers.length) (choice : VariantChoice) :
    Prepared base (stage.changed base.target.layer master .override fun spec =>
        { spec with
          variantSelection := spec.variantSelection.insert choice.set choice.variant })
      master set done (SortedMap.empty.insert choice.set choice.variant) := by
  have hspec : ∀ other path, (stage.changed base.target.layer master .override fun spec =>
      { spec with variantSelection :=
          spec.variantSelection.insert choice.set choice.variant }).spec? other path = _ :=
    Stage.spec_changed hplace
  refine ⟨h.pos, h.plain, h.target_eq, by simpa using h.length_eq, ?_, ?_, ?_, ?_⟩
  · intro place path helse
    rw [hspec, if_neg, h.elsewhere place path helse]
    rintro ⟨rfl, rfl⟩
    rcases helse with helse | helse
    · exact helse rfl
    · exact helse (PrimPath.strip_eq_self h.plain)
  · intro path spec hpath hauthored
    rw [hspec] at hauthored
    split at hauthored
    · next hat =>
        obtain ⟨bare, hbare, hopen⟩ := h.exists_bare_of_master
        obtain rfl := Option.some.inj hauthored
        refine .inl ⟨hat.2, _, hbare.with_specifier (bare.specifier.join .override), ?_⟩
        simp only [hopen]
    · next hmaster =>
        rcases h.own path spec hpath hauthored with ⟨rfl, -⟩ | hvariant
        · exact absurd ⟨rfl, rfl⟩ hmaster
        · exact .inr hvariant
  · intro _
    rw [hspec, if_pos ⟨rfl, rfl⟩]
    rfl
  · intro other hother
    rw [hspec, if_neg (fun hsame => variant_site_ne h.pos other hsame.2)]
    exact h.referred other hother

end Prepared

/-- A run that makes master variants has checked its materials and leaves the stage prepared. -/
theorem prepared_of_run_create {stage created : Stage} {master : PrimPath}
    {materials : List PrimPath} {set : Option String} (hclear : Clear stage master materials)
    (h : (create master materials set).run stage = .ok () created) :
    check stage master materials (set.getD Material.variantSet) = .ok () ∧
      Prepared stage created master (set.getD Material.variantSet) materials .empty := by
  rw [create, Edit.run_bind_eq_ok] at h
  simp only [Edit.run_get_eq_ok] at h
  obtain ⟨_, _, ⟨rfl, rfl⟩, h⟩ := h
  rw [Edit.run_bind_eq_ok] at h
  simp only [Edit.run_check_eq_ok] at h
  obtain ⟨_, _, ⟨hcheck, rfl⟩, h⟩ := h
  obtain ⟨-, hprim, hdistinct, -⟩ := check_eq_ok hcheck
  obtain ⟨hroot, hplain, -⟩ := compose_is_some_iff.mp hprim
  have hpos := PrimPath.is_root_eq_false_iff.mp hroot
  exact ⟨hcheck, (hclear.prepared hpos hplain _).of_run_add_materials hclear.target_plain
    (by simpa using hdistinct) h⟩

end MasterVariant

end LayeredShading
