import LayeredShading.Proofs.Composition.Branching
import LayeredShading.Proofs.Composition.Hidden
import LayeredShading.Proofs.Composition.Locality
import LayeredShading.Proofs.EditTarget
import LayeredShading.Proofs.Network.VariantSets
import LayeredShading.Proofs.Stage.Operation

/-!
# Authoring in view

The edit target keeps the opinions on a prim at a path of its own, and composition visits sites of
its own; authoring on the prim is in view (`Stage.InView`) if the path is one of the sites. It stays
so when something is written there (`InView.changed`), and a spec in view makes its prim compose.
What is written out of view leaves the whole scene as it is (`prim_eq_of_out_of_view`). So a
declaration that succeeds declares an attribute of the composed prim exactly in view
(`attribute_type_of_run_create`, `attribute_eq_of_run_create`), unless it was declared before.
-/

namespace LayeredShading

open Opinion

/-! ## Sites -/

namespace Opinion

variable {layers : List Layer}

/-- A child of a site is a site of the child. -/
theorem push_mem_local_sites {path site : PrimPath} (h : site ∈ localSites layers path)
    (name : String) : site.push name ∈ localSites layers (path.push name) := by
  rcases mem_local_sites.mp h with rfl | ⟨depth, choice, hmem, hle, rfl⟩
  · exact mem_local_sites.mpr (.inl rfl)
  · refine mem_local_sites.mpr (.inr ⟨depth, choice, ?_, ?_, ?_⟩)
    · rw [selectionsOn, PrimPath.ancestry_push, List.flatMap_append]
      exact List.mem_append_left _ hmem
    · rw [PrimPath.depth_push]
      omega
    · rw [PrimPath.push_eq_append, PrimPath.push_eq_append, PrimPath.choose_append hle]

variable {stage : Stage} {place : Nat} {site : PrimPath} {specifier : Specifier}
  {change : PrimSpec → PrimSpec}

/-- A change of one spec leaves the specs at other paths as they are. -/
theorem specs_at_changed {path : PrimPath} (hother : path ≠ site) :
    specsAt (stage.changed place site specifier change).layers path =
      specsAt stage.layers path := by
  refine specs_at_congr (by simp) fun index _ _ => ?_
  simp only [Stage.changed, List.getElem_modify]
  split
  next => rw [Layer.spec_change_spec, if_neg hother]
  next => rfl

/-- A change within a variant leaves the sites of prims as they are. -/
theorem local_sites_changed {path : PrimPath} (hsite : site.hasChoices = true)
    (hplain : path.hasChoices = false) :
    localSites (stage.changed place site specifier change).layers path =
      localSites stage.layers path := by
  refine local_sites_congr fun above habove => ?_
  have hother : above ≠ site := by
    rintro rfl
    rw [has_choices_of_mem_ancestry hplain habove] at hsite
    cases hsite
  rw [choicesAt, choicesAt, specs_at_changed hother]

end Opinion

/-- A definition makes and changes specs beside their branching. -/
theorem Operation.Writes.alike_of_define {stage later : Stage} {path : PrimPath}
    {typeName : Option String} (h : (Operation.definePrim path typeName).Writes stage later) :
    Alike stage.layers later.layers := by
  cases h with
  | made hmakes _ =>
      cases hmakes with
      | definePrim => exact .of_changed fun _ => rfl
      | defineAbove => exact .of_changed fun _ => rfl
  | amended hamends => cases hamends

namespace Stage

/-! ## View -/

/-- What is authored on a prim stands at one of the sites where composition looks for opinions on
it. -/
def InView (stage : Stage) (path : PrimPath) : Prop :=
  stage.target.specPath path ∈ localSites stage.layers path

instance (stage : Stage) (path : PrimPath) : Decidable (stage.InView path) :=
  inferInstanceAs (Decidable (_ ∈ _))

variable {stage later : Stage} {place : Nat} {path site : PrimPath} {specifier : Specifier}
  {change : PrimSpec → PrimSpec} {spec : PrimSpec}

/-- A spec at a site of a prim makes the prim compose. -/
theorem has_prim_of_local_site (hroot : path.isRoot = false) (hplain : path.hasChoices = false)
    (hsite : site ∈ localSites stage.layers path) (h : stage.spec? place site = some spec) :
    stage.hasPrim path = true := by
  obtain ⟨hplace, hspec⟩ := spec_eq_some_iff.mp h
  obtain ⟨_, hopinion, -⟩ :=
    exists_mem_gather_of_local_site hsite (List.getElem_mem hplace) hspec
  exact compose_is_some_iff.mpr ⟨hroot, hplain, List.ne_nil_of_mem hopinion⟩

/-- A spec at a prim's own path makes the prim compose. -/
theorem has_prim_of_spec (hroot : path.isRoot = false) (hplain : path.hasChoices = false)
    (h : stage.spec? place path = some spec) : stage.hasPrim path = true :=
  has_prim_of_local_site hroot hplain (mem_local_sites.mpr (.inl rfl)) h

/-- A prim on which the target keeps opinions at its own path is in view. -/
theorem InView.of_spec_path_eq (h : stage.target.specPath path = path) : stage.InView path :=
  mem_local_sites.mpr (.inl h)

/-- Stacks with the same branching have the same in view. -/
theorem InView.iff_of_alike (halike : Alike stage.layers later.layers)
    (htarget : later.target = stage.target) : later.InView path ↔ stage.InView path := by
  rw [InView, InView, htarget, halike.local_sites_eq]

/-- Whatever is written on a prim in view leaves it in view. -/
theorem InView.changed (h : stage.InView path) (hplain : path.hasChoices = false) :
    (stage.changed place (stage.target.specPath path) specifier change).InView path := by
  by_cases hhere : stage.target.specPath path = path
  · exact .of_spec_path_eq hhere
  · rw [InView, target_changed,
      local_sites_changed (EditTarget.has_choices_spec_path hplain hhere) hplain]
    exact h

/-- What is written in view makes the prim compose. -/
theorem InView.has_prim_changed (h : stage.InView path) (hroot : path.isRoot = false)
    (hplain : path.hasChoices = false) (hplace : place < stage.layers.length) :
    (stage.changed place (stage.target.specPath path) specifier change).hasPrim path = true :=
  has_prim_of_local_site hroot hplain (h.changed hplain)
    ((spec_changed hplace _ _).trans (if_pos ⟨rfl, rfl⟩))

/-- A variant that is declared where the target keeps opinions on a prim in view is declared by the
composed prim. -/
theorem InView.has_variant {choice : VariantChoice} (h : stage.InView path)
    (hroot : path.isRoot = false) (hplain : path.hasChoices = false)
    (hspec : stage.spec? place (stage.target.specPath path) = some spec)
    (hdeclares : spec.declares choice = true) : VariantSet.hasVariant stage path choice = true := by
  obtain ⟨hlayer, hown⟩ := spec_eq_some_iff.mp hspec
  obtain ⟨opinion, hopinion, -, -, rfl⟩ :=
    exists_mem_gather_of_local_site h (List.getElem_mem hlayer) hown
  exact VariantSet.has_variant_iff.mpr ⟨hroot, hplain, opinion, hopinion, hdeclares⟩

/-- A variant that is added is declared where the target keeps opinions on the prim. -/
theorem exists_spec_declares {choice : VariantChoice} (hplace : place < stage.layers.length) :
    ∃ spec, (stage.changed place site specifier fun spec =>
        spec.addVariants choice.set [choice.variant]).spec? place site = some spec ∧
      spec.declares choice = true := by
  refine ⟨_, (spec_changed hplace _ _).trans (if_pos ⟨rfl, rfl⟩), ?_⟩
  exact PrimSpec.declares_add_variants_iff.mpr (.inr ⟨rfl, List.mem_singleton_self _⟩)

/-- What is written on a prim out of view leaves every composed prim as it is. -/
theorem prim_eq_of_out_of_view (harcs : ArcsPlain stage.layers) (hplain : path.hasChoices = false)
    (hout : ¬ stage.InView path) (other : PrimPath) :
    (stage.changed place (stage.target.specPath path) specifier change).prim? other =
      stage.prim? other := by
  let hidden (path' : PrimPath) : Prop := path' = stage.target.specPath path
  have hagree : List.Forall₂ (Layer.AgreeOff hidden) stage.layers
      (stage.changed place (stage.target.specPath path) specifier change).layers := by
    refine List.forall₂_iff_get.mpr ⟨by simp, fun index _ _ => ?_⟩
    intro at_ hvisible
    simp only [List.get_eq_getElem, Stage.changed, List.getElem_modify]
    split
    next => rw [Layer.spec_change_spec, if_neg hvisible]
    next => rfl
  -- The hidden path is about the prim alone, so it would have to be a site of the prim.
  have hsame : ∀ {about site : PrimPath}, about.hasChoices = false →
      site ∈ localSites stage.layers about → ¬ hidden site := by
    rintro about _ habout hsite rfl
    have hstrip := strip_of_mem_local_sites hsite
    rw [EditTarget.strip_spec_path, PrimPath.strip_eq_self hplain,
      PrimPath.strip_eq_self habout] at hstrip
    exact hout (hstrip ▸ hsite)
  refine (compose_eq_of_agree_off hagree (fun about habout site hsite => ⟨?_, fun name => ?_⟩)
    harcs other).symm
  · exact hsame habout hsite
  · exact hsame ((PrimPath.has_choices_push about name).trans habout)
      (push_mem_local_sites hsite name)

/-! ## Declarations -/

section Declare

variable {path : PropertyPath} {type : ValueType} {custom : Bool}

/-- A declaration succeeds for an attribute of a composed prim that is not declared with another
type. -/
theorem changed_of_run_create
    (h : (Edit.createAttribute path type custom).run stage = .ok () later) :
    stage.hasPrim path.prim = true ∧
      (∀ existing, stage.attribute? path = some existing → existing.type = type) ∧
      stage.target.layer < stage.layers.length ∧
      stage.changed stage.target.layer (stage.target.specPath path.prim) .override
        (fun spec => spec.changeAttribute path.name (.declare type custom) id) = later := by
  rw [Edit.createAttribute, Edit.run_bind_eq_ok] at h
  simp only [Edit.run_require_prim_eq_ok] at h
  obtain ⟨prim, _, ⟨hprim, rfl⟩, h⟩ := h
  have hopen : stage.attribute? path = prim.attribute? path.name := by
    rw [attribute?, hprim]
    rfl
  rw [hopen]
  refine ⟨Option.isSome_of_eq_some hprim, ?_⟩
  cases hfound : prim.attribute? path.name with
  | none =>
      simp only [hfound] at h
      refine ⟨?_, Edit.run_change_spec_eq_ok.mp h⟩
      rintro _ ⟨⟩
  | some existing =>
      simp only [hfound] at h
      split at h
      next =>
        obtain ⟨_, _, hthrow, -⟩ := Edit.run_bind_eq_ok.mp h
        exact absurd hthrow Edit.run_throw_ne_ok
      next htype =>
        refine ⟨?_, Edit.run_change_spec_eq_ok.mp h⟩
        rintro _ ⟨⟩
        exact not_not.mp htype

/-- The composed type of an attribute is that of the first opinion which declares it. -/
theorem attribute_type_eq (hroot : path.prim.isRoot = false)
    (hplain : path.prim.hasChoices = false) (hname : isPropertyName path.name = true) :
    (stage.attribute? path).map (·.type) =
      (gather stage.layers path.prim).findSome? fun opinion =>
        (opinion.spec.attributes.get? path.name).map (·.type) := by
  refine (attribute_type_of_compose hroot hplain path.name).trans ?_
  congr 1
  funext opinion
  rw [attribute_eq, if_pos hname]
  cases opinion.spec.attributes.get? path.name <;> rfl

/-- An attribute that an opinion on a prim declares is declared on the composed prim. -/
theorem attribute_is_some_of_mem_gather {opinion : Opinion}
    (hopinion : opinion ∈ gather stage.layers path.prim) (hroot : path.prim.isRoot = false)
    (hplain : path.prim.hasChoices = false) (hname : isPropertyName path.name = true)
    (hdeclared : (opinion.spec.attributes.get? path.name).isSome = true) :
    (stage.attribute? path).isSome = true := by
  rw [← Option.isSome_map (f := (·.type)), attribute_type_eq hroot hplain hname,
    List.findSome?_isSome_iff]
  exact ⟨opinion, hopinion, by rwa [Option.isSome_map]⟩

/-- The stage after an attribute is declared in the spec at a path. -/
def declaring (stage : Stage) (place : Nat) (site : PrimPath) (name : String) (type : ValueType)
    (custom : Bool) : Stage :=
  stage.changed place site .override fun spec =>
    spec.changeAttribute name (.declare type custom) id

/-- A declaration leaves the composed type as it is or gives its own. -/
theorem attribute_type_declaring (hroot : path.prim.isRoot = false)
    (hplain : path.prim.hasChoices = false) (hname : isPropertyName path.name = true) :
    KeepsOrGives type ((stage.attribute? path).map (·.type))
      (((stage.declaring place site path.name type custom).attribute? path).map (·.type)) := by
  let declare (spec : PrimSpec) : PrimSpec :=
    spec.changeAttribute path.name (.declare type custom) id
  let declared (spec : PrimSpec) : Option ValueType :=
    (spec.attributes.get? path.name).map (·.type)
  have hdeclare : ∀ spec, KeepsOrGives type (declared spec) (declared (declare spec)) := by
    intro spec
    simp only [declared, declare, PrimSpec.changeAttribute, SortedMap.get?_update, if_true, id]
    cases spec.attributes.get? path.name with
    | none => exact .inr rfl
    | some own => exact .inl rfl
  rw [attribute_type_eq hroot hplain hname, attribute_type_eq hroot hplain hname, declaring]
  exact @find_some_gather_changed stage place site .override declare _ declared type
    (fun _ => rfl) (fun _ => rfl) (fun _ _ => rfl) hdeclare path.prim

/-- A declaration in view shows on the composed prim. -/
theorem InView.attribute_declaring (h : stage.InView path.prim)
    (hroot : path.prim.isRoot = false) (hplain : path.prim.hasChoices = false)
    (hname : isPropertyName path.name = true) (hplace : place < stage.layers.length) :
    ((stage.declaring place (stage.target.specPath path.prim) path.name type custom).attribute?
      path).isSome = true := by
  obtain ⟨own, hown, hdeclared⟩ : ∃ own, (stage.declaring place (stage.target.specPath path.prim)
      path.name type custom).spec? place (stage.target.specPath path.prim) = some own ∧
        (own.attributes.get? path.name).isSome = true := by
    rw [declaring, spec_changed hplace, if_pos ⟨rfl, rfl⟩]
    exact ⟨_, rfl, by simp [PrimSpec.changeAttribute, SortedMap.get?_update]⟩
  obtain ⟨hlayer, hspec⟩ := spec_eq_some_iff.mp hown
  obtain ⟨opinion, hopinion, -, -, rfl⟩ := exists_mem_gather_of_local_site
    (h.changed hplain) (List.getElem_mem hlayer) hspec
  exact attribute_is_some_of_mem_gather hopinion hroot hplain hname hdeclared

variable (h : (Edit.createAttribute path type custom).run stage = .ok () later)

include h

/-- What is declared in view, or was declared before, has the type that it is declared with. -/
theorem attribute_type_of_run_create (hname : isPropertyName path.name = true)
    (hshown : (stage.attribute? path).isSome = true ∨ stage.InView path.prim) :
    (later.attribute? path).map (·.type) = some type := by
  obtain ⟨hprim, hexisting, hlayer, rfl⟩ := changed_of_run_create h
  obtain ⟨hroot, hplain, -⟩ := compose_is_some_iff.mp hprim
  show (((stage.declaring _ _ _ type custom).attribute? path).map (·.type)) = _
  rcases @attribute_type_declaring stage _ _ path type custom hroot hplain hname
    with hsame | hgiven
  · -- The type is as before, so the attribute was declared before, if only to show now.
    have hbefore : (stage.attribute? path).isSome = true := by
      refine hshown.elim id fun hview => ?_
      have hnow := @InView.attribute_declaring stage _ path type custom hview hroot hplain hname
        hlayer
      rwa [← Option.isSome_map, hsame, Option.isSome_map] at hnow
    obtain ⟨existing, hfound⟩ := Option.isSome_iff_exists.mp hbefore
    refine hsame.trans ?_
    rw [hfound, Option.map_some, hexisting existing hfound]
  · exact hgiven

/-- What is declared out of view changes nothing on composed prims. -/
theorem attribute_eq_of_run_create (harcs : ArcsPlain stage.layers)
    (hout : ¬ stage.InView path.prim) : later.attribute? path = stage.attribute? path := by
  obtain ⟨hprim, -, -, rfl⟩ := changed_of_run_create h
  obtain ⟨-, hplain, -⟩ := compose_is_some_iff.mp hprim
  rw [attribute?, attribute?, prim_eq_of_out_of_view harcs hplain hout]

end Declare

/-! ## Definitions -/

section Define

variable {typeName : Option String}

/-- A definition keeps the target and the branching of the stack. -/
theorem alike_after_define (stage : Stage) (path : PrimPath) (typeName : Option String) :
    (stage.after (Edit.definePrim path typeName)).target = stage.target ∧
      Alike stage.layers (stage.after (Edit.definePrim path typeName)).layers := by
  refine @Operation.after_of_writes (.definePrim path typeName) stage
    (fun later => later.target = stage.target ∧ Alike stage.layers later.layers)
    ⟨rfl, fun _ => rfl⟩ ?_
  intro between later hbetween hwrite
  exact ⟨hwrite.target_eq.trans hbetween.1,
    fun site => (hbetween.2 site).trans (hwrite.alike_of_define site)⟩

/-- A definition that succeeds ends with a change of the prim's spec, which gets the type. -/
theorem changed_of_run_define
    (h : (Edit.definePrim path typeName).run stage = .ok () later) :
    path.isRoot = false ∧ path.hasChoices = false ∧
      ∃ between : Stage, between.target = stage.target ∧
        between.target.layer < between.layers.length ∧
        between.changed between.target.layer (between.target.specPath path) .define
          (fun spec => { spec with typeName := typeName <|> spec.typeName }) = later := by
  have htarget := (alike_after_define stage path typeName).1
  rw [Edit.after_of_ok h] at htarget
  rw [Edit.definePrim, Edit.run_bind_eq_ok] at h
  simp only [Edit.run_check_eq_ok] at h
  obtain ⟨_, _, ⟨hpath, rfl⟩, h⟩ := h
  obtain ⟨hroot, hplain⟩ := PrimPath.require_scene_path_eq_ok_iff.mp hpath
  rw [Edit.run_bind_eq_ok] at h
  obtain ⟨_, between, -, h⟩ := h
  obtain ⟨hlayer, rfl⟩ := Edit.run_change_spec_eq_ok.mp h
  exact ⟨hroot, hplain, between, htarget, hlayer, rfl⟩

/-- A definition that succeeds ends with a spec for the prim. -/
theorem exists_spec_of_run_define
    (h : (Edit.definePrim path typeName).run stage = .ok () later) :
    path.isRoot = false ∧ path.hasChoices = false ∧
      ∃ spec, later.spec? later.target.layer (later.target.specPath path) = some spec := by
  obtain ⟨hroot, hplain, between, -, hlayer, rfl⟩ := changed_of_run_define h
  exact ⟨hroot, hplain, _, (spec_changed hlayer _ _).trans (if_pos ⟨rfl, rfl⟩)⟩

end Define

end Stage

end LayeredShading
