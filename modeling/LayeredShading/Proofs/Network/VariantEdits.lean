import LayeredShading.Proofs.Network.Resolution
import LayeredShading.Proofs.Stage.View

/-!
# Edits within a variant

Edits of a prim and the prims below it that are redirected into a variant write specs whose paths
carry the choice of the variant, whatever the edits are and whether or not they fail
(`spec_after_all_eq`). Composition comes to such specs only from a prim whose plain specs select
the variant (`sites_visible_of_unselected`), so as long as none does the scene does not change:
`variant_edits_local` puts the two together.
-/

namespace LayeredShading

namespace PrimPath

/-- The path is about a prim or one below it and carries a choice on the segment of the prim. -/
def CarriesChoice (path prim : PrimPath) (choice : VariantChoice) : Prop :=
  path.stripChoices.isUnder prim = true ∧
    ∃ segment, path.segments[prim.depth - 1]? = some segment ∧ choice ∈ segment.choices

variable {path prim : PrimPath} {choice : VariantChoice}

theorem not_carries_of_plain (hplain : path.hasChoices = false) :
    ¬ path.CarriesChoice prim choice := by
  rintro ⟨-, segment, hsegment, hmem⟩
  rw [has_choices_eq_false_iff.mp hplain segment (List.mem_of_getElem? hsegment)] at hmem
  cases hmem

/-- A choice that is made at the depth of a prim is carried by the paths about it and below. -/
theorem carries_choose (hpos : 0 < prim.depth) (hunder : path.stripChoices.isUnder prim = true) :
    (path.choose prim.depth choice).CarriesChoice prim choice := by
  refine ⟨by simpa using hunder, ?_⟩
  obtain ⟨index, hindex⟩ := Nat.exists_eq_succ_of_ne_zero (Nat.ne_of_gt hpos)
  obtain ⟨rest, hrest⟩ := is_under_iff.mp hunder
  have hlt : index < path.segments.length := by
    have hdepth := congrArg depth hrest
    rw [depth_strip, depth_append] at hdepth
    simp only [depth] at hdepth hindex
    omega
  simp [hindex, choose, hlt]

/-- The only choice that is made on a plain path is carried at its depth. -/
theorem eq_of_carries_choose (hpos : 0 < prim.depth) (hplain : path.hasChoices = false)
    {depth : Nat} {other : VariantChoice}
    (h : (path.choose depth other).CarriesChoice prim choice) :
    depth = prim.depth ∧ other = choice := by
  have hnone := has_choices_eq_false_iff.mp hplain
  obtain ⟨-, segment, hsegment, hmem⟩ := h
  cases depth with
  | zero =>
      rw [hnone segment (List.mem_of_getElem? hsegment)] at hmem
      cases hmem
  | succ index =>
      simp only [choose, List.getElem?_modify, Option.map_eq_map,
        Option.map_eq_some_iff] at hsegment
      obtain ⟨own, hown, rfl⟩ := hsegment
      have hempty := hnone own (List.mem_of_getElem? hown)
      by_cases hindex : index = prim.depth - 1
      · simp only [hindex, if_true, hempty, List.nil_append, List.mem_singleton] at hmem
        exact ⟨by omega, hmem.symm⟩
      · simp [hindex, hempty] at hmem

/-- A choice that a child's path carries stands on the way to it. -/
theorem carries_of_push (hpos : 0 < prim.depth) {name : String}
    (h : (path.push name).CarriesChoice prim choice) : path.CarriesChoice prim choice := by
  obtain ⟨hunder, segment, hsegment, hmem⟩ := h
  have hlt : prim.depth - 1 < path.segments.length := by
    by_contra hge
    -- The last segment is plain, so the prim's segment is not that one.
    have hlast : segment = .plain name := by
      rw [push, List.getElem?_append_right (by omega)] at hsegment
      exact (List.mem_singleton.mp (List.mem_of_getElem? hsegment))
    rw [hlast] at hmem
    cases hmem
  refine ⟨?_, segment, ?_, hmem⟩
  · have hle : prim.segments.length ≤ path.stripChoices.segments.length := by
      simp only [depth] at hlt hpos
      simp only [stripChoices, List.length_map]
      omega
    have hprefix : prim.segments <+: path.stripChoices.segments ++ [.plain name] := by
      simpa [isUnder, push, stripChoices, Segment.plain] using hunder
    rw [isUnder, List.isPrefixOf_iff_prefix]
    exact List.prefix_of_prefix_length_le hprefix (List.prefix_append _ _) hle
  · rwa [push, List.getElem?_append_left hlt] at hsegment

end PrimPath

/-! ## Where redirected edits write -/

namespace Stage

/-- The stage that operations leave which are run one after the other, whether or not they fail. -/
def afterAll (stage : Stage) (operations : List Operation) : Stage :=
  operations.foldl (fun between operation => between.after operation.run) stage

end Stage

namespace EditTarget

/-- A target that is redirected into a variant of a prim keeps an opinion on the prim, or on one
below it, within the variant. -/
theorem carries_spec_path {prim path : PrimPath} {choice : VariantChoice} (target : EditTarget)
    (hpos : 0 < prim.depth) (hplain : prim.hasChoices = false)
    (hunder : path.stripChoices.isUnder prim = true) :
    ((target.redirect prim choice).specPath path).CarriesChoice prim choice := by
  rw [spec_path_redirect, if_pos (by rwa [PrimPath.strip_eq_self hplain])]
  refine PrimPath.carries_choose hpos ?_
  rwa [strip_spec_path]

end EditTarget

/-! ## Edits of a prim and below -/

/-- A variant of a prim that is redirected into: the prims on the way to it have plain specs of
their own. -/
structure VariantSite (stage : Stage) (prim : PrimPath) (choice : VariantChoice) : Prop where
  not_root : prim.isRoot = false
  plain : prim.hasChoices = false
  authored : ∀ above ∈ prim.ancestry, ∃ place spec, stage.spec? place above = some spec
  redirected : ∃ layer, stage.target = (EditTarget.ofLayer layer).redirect prim choice

section Edits

variable {stage : Stage} {prim : PrimPath} {choice : VariantChoice}

/-- The same specs in as many layers, off those that carry the choice of a variant. -/
structure SameOff (prim : PrimPath) (choice : VariantChoice) (stage later : Stage) : Prop where
  target_eq : later.target = stage.target
  identifiers_eq : later.layerIdentifiers = stage.layerIdentifiers
  spec_eq : ∀ place path, ¬ path.CarriesChoice prim choice →
    later.spec? place path = stage.spec? place path

theorem SameOff.refl (stage : Stage) : SameOff prim choice stage stage :=
  ⟨rfl, rfl, fun _ _ _ => rfl⟩

theorem SameOff.trans {first second third : Stage} (h : SameOff prim choice first second)
    (hnext : SameOff prim choice second third) : SameOff prim choice first third where
  target_eq := hnext.target_eq.trans h.target_eq
  identifiers_eq := hnext.identifiers_eq.trans h.identifiers_eq
  spec_eq place path hpath := (hnext.spec_eq place path hpath).trans (h.spec_eq place path hpath)

theorem VariantSite.of_same_off {later : Stage} (h : VariantSite stage prim choice)
    (hsame : SameOff prim choice stage later) : VariantSite later prim choice where
  not_root := h.not_root
  plain := h.plain
  authored above habove := by
    obtain ⟨place, spec, hspec⟩ := h.authored above habove
    have hplain := Opinion.has_choices_of_mem_ancestry h.plain habove
    have hkept := hsame.spec_eq place above (PrimPath.not_carries_of_plain hplain)
    exact ⟨place, spec, hkept.trans hspec⟩
  redirected := hsame.target_eq ▸ h.redirected

/-- A write of an operation on the prim or below stays within the variant. -/
theorem SameOff.of_writes {operation : Operation} {later : Stage}
    (h : VariantSite stage prim choice)
    (hunder : operation.prim.stripChoices.isUnder prim = true)
    (hwrites : operation.Writes stage later) : SameOff prim choice stage later := by
  have hpos : 0 < prim.depth := PrimPath.is_root_eq_false_iff.mp h.not_root
  obtain ⟨layer, htarget⟩ := h.redirected
  have hcarries : ∀ path : PrimPath, path.stripChoices.isUnder prim = true →
      (stage.target.specPath path).CarriesChoice prim choice := by
    intro path hpath
    rw [htarget]
    exact EditTarget.carries_spec_path _ hpos h.plain hpath
  refine ⟨hwrites.target_eq, hwrites.identifiers_eq, ?_⟩
  intro place path hpath
  apply hwrites.spec_eq
  · rintro rfl
    exact hpath (hcarries _ hunder)
  · rintro hplain above habove hprim rfl
    have habovePlain := Opinion.has_choices_of_mem_ancestry hplain habove
    rw [PrimPath.strip_eq_self hplain] at hunder
    obtain ⟨rest, hrest⟩ := PrimPath.is_under_iff.mp hunder
    rw [hrest] at habove
    rcases PrimPath.under_or_above_of_mem_ancestry habove with hbelow | hover
    · exact hpath (hcarries above (by rwa [PrimPath.strip_eq_self habovePlain]))
    · -- A prim on the way has a plain spec, so it exists and is not made.
      have hway : above ∈ prim.ancestry := PrimPath.mem_ancestry_iff.mpr
        ⟨(PrimPath.mem_ancestry_iff.mp habove).1, PrimPath.is_under_iff.mp hover⟩
      obtain ⟨other, spec, hspec⟩ := h.authored above hway
      have hroot : above.isRoot = false :=
        PrimPath.is_root_eq_false_iff.mpr (PrimPath.mem_ancestry_iff.mp hway).1
      simp [Stage.has_prim_of_spec hroot habovePlain hspec] at hprim

/-- An operation on the prim or below changes only specs within the variant. -/
theorem SameOff.of_operation {operation : Operation} (h : VariantSite stage prim choice)
    (hunder : operation.prim.stripChoices.isUnder prim = true) :
    SameOff prim choice stage (stage.after operation.run) := by
  refine Operation.after_of_writes (SameOff prim choice stage) (.refl stage) ?_
  intro between later hbetween hwrite
  -- Each write keeps what the next one needs to stay within the variant.
  exact hbetween.trans (.of_writes (h.of_same_off hbetween) hunder hwrite)

/-- Operations on the prim and below change only specs within the variant. -/
theorem SameOff.of_operations {operations : List Operation} (h : VariantSite stage prim choice)
    (hunder : ∀ operation ∈ operations, operation.prim.stripChoices.isUnder prim = true) :
    SameOff prim choice stage (stage.afterAll operations) := by
  induction operations generalizing stage with
  | nil => exact .refl stage
  | cons operation rest ih =>
      have hfirst : SameOff prim choice stage (stage.after operation.run) :=
        .of_operation h (hunder operation List.mem_cons_self)
      exact hfirst.trans (ih (h.of_same_off hfirst)
        fun other hother => hunder other (List.mem_cons_of_mem _ hother))

/-! ## What composition reads of them -/

/-- Stages with the same specs off a variant have layers that agree off it. -/
theorem SameOff.agree_off {later : Stage} (h : SameOff prim choice stage later) :
    List.Forall₂ (Layer.AgreeOff fun path => path.CarriesChoice prim choice)
      stage.layers later.layers := by
  have hlength : stage.layers.length = later.layers.length := by
    simpa [Stage.layerIdentifiers] using (congrArg List.length h.identifiers_eq).symm
  refine List.forall₂_iff_get.mpr ⟨hlength, ?_⟩
  intro place hplace hlater path hpath
  simpa [Stage.spec_eq hplace, Stage.spec_eq hlater] using (h.spec_eq place path hpath).symm

/-- A choice at a prim is a selection of one of its plain specs. -/
theorem exists_selection_of_mem_choices_at {layers : List Layer} {prim : PrimPath}
    {choice : VariantChoice} (h : choice ∈ Opinion.choicesAt layers prim) :
    ∃ spec ∈ Opinion.specsAt layers prim,
      spec.variantSelection.get? choice.set = some choice.variant := by
  rw [Opinion.choices_at_eq] at h
  have hselected := Opinion.mem_foldl_with_selections_iff.mp (List.mem_of_mem_filter h)
  exact List.exists_of_findSome?_eq_some (by simpa using hselected)

/-- No site of a plain path, nor a child of one, is within a variant that no plain spec of its prim
selects. -/
theorem sites_visible_of_unselected {layers : List Layer} (hpos : 0 < prim.depth)
    (hunselected : choice ∉ Opinion.choicesAt layers prim) :
    Opinion.SitesVisible (fun path => path.CarriesChoice prim choice) layers := by
  intro path hplain site hsite
  suffices hidden : ¬ site.CarriesChoice prim choice from
    ⟨hidden, fun name hchild => hidden (PrimPath.carries_of_push hpos hchild)⟩
  intro hcarries
  rcases Opinion.mem_local_sites.mp hsite with rfl | ⟨depth, made, hmade, hle, rfl⟩
  · exact PrimPath.not_carries_of_plain hplain hcarries
  · obtain ⟨rfl, rfl⟩ := PrimPath.eq_of_carries_choose hpos hplain hcarries
    obtain ⟨above, habove, hchoice⟩ := List.mem_flatMap.mp hmade
    simp only [List.mem_map, Prod.mk.injEq] at hchoice
    obtain ⟨_, hchoice, hdepth, rfl⟩ := hchoice
    -- The prim on the way that makes the choice is the one of the variant: both are as deep.
    have hunder : path.isUnder prim = true := by
      simpa [PrimPath.strip_eq_self hplain] using hcarries.1
    obtain ⟨rest, rfl⟩ := PrimPath.is_under_iff.mp hunder
    obtain ⟨-, others, hothers⟩ := PrimPath.mem_ancestry_iff.mp habove
    have hsame : prim = above := by
      have hsegments : prim.segments ++ rest = above.segments ++ others :=
        congrArg PrimPath.segments hothers
      have hprefix := (List.append_inj hsegments hdepth.symm).1
      cases prim
      cases above
      exact congrArg PrimPath.mk hprefix
    exact hunselected (hsame ▸ hchoice)

/-- Edits within a variant that no plain spec of its prim selects leave the scene as it is. -/
theorem SameOff.prim_eq {later : Stage} (h : SameOff prim choice stage later)
    (hpos : 0 < prim.depth) (harcs : Opinion.ArcsPlain stage.layers)
    (hunselected : ∀ place spec, stage.spec? place prim = some spec →
      spec.variantSelection.get? choice.set ≠ some choice.variant) (path : PrimPath) :
    later.prim? path = stage.prim? path := by
  refine (compose_eq_of_agree_off h.agree_off (sites_visible_of_unselected hpos ?_) harcs
    path).symm
  intro hchoice
  obtain ⟨spec, hspec, hselection⟩ := exists_selection_of_mem_choices_at hchoice
  obtain ⟨place, hplace⟩ := Stage.mem_specs_at.mp hspec
  exact hunselected place spec hplace hselection

end Edits

/-! ## Resolution -/

section Resolution

variable {stage later : Stage} (h : ∀ path, later.prim? path = stage.prim? path)

include h

theorem Stage.attribute_congr (path : PropertyPath) :
    later.attribute? path = stage.attribute? path := by
  rw [attribute?, attribute?, h]

theorem Stage.resolves_of_same_prims {output : PropertyPath} {source : ShaderOutput}
    (hresolves : stage.Resolves output source) : later.Resolves output source := by
  have hdeclared : ∀ {typeName output baseName type},
      stage.OutputOn typeName output baseName type →
        later.OutputOn typeName output baseName type := by
    rintro typeName output baseName type ⟨hname, prim, composed, hprim, hrest⟩
    exact ⟨hname, prim, composed, (h _).trans hprim, hrest⟩
  obtain ⟨middle, last, hchain, hmiddle, hlast, hshader⟩ := hresolves
  refine ⟨middle, last, hchain.imp ?_, ?_, hlast, hdeclared hshader⟩
  · rintro first second ⟨composed, hcomposed, hconnection⟩
    exact ⟨composed, (Stage.attribute_congr h first).trans hcomposed, hconnection⟩
  · intro passed hpassed
    obtain ⟨typeName, htypeName, baseName, type, hpasses⟩ := hmiddle passed hpassed
    exact ⟨typeName, htypeName, baseName, type, hdeclared hpasses⟩

/-- Terminals resolve alike where all prims compose alike. -/
theorem Material.resolve_congr (material : PrimPath) (kind : TerminalKind)
    (contexts : List String) :
    resolve later material kind contexts = resolve stage material kind contexts := by
  have hanswer : ∀ {first second : Stage}, (∀ path, second.prim? path = first.prim? path) →
      ∀ {context source}, ResolvesFor first material kind context source →
        ResolvesFor second material kind context source := by
    rintro first second hsame context source ⟨hdeclared, hresolves⟩
    refine ⟨?_, Stage.resolves_of_same_prims hsame hresolves⟩
    rwa [Stage.attribute_congr hsame]
  have hcontext : ∀ context,
      (terminalOutput? later material kind context).bind later.follow =
        (terminalOutput? stage material kind context).bind stage.follow := by
    intro context
    apply Option.ext
    intro source
    rw [answer_eq_some_iff, answer_eq_some_iff]
    exact ⟨hanswer fun path => (h path).symm, hanswer h⟩
  show (contextsTried contexts).findSome? _ = (contextsTried contexts).findSome? _
  congr 1
  funext context
  exact hcontext context

end Resolution

/-! ## Locality -/

namespace Stage

/-- Edits within a variant are local to it: whatever operations are run on a prim, on prims below
it and on their attributes while the target redirects into a variant of the prim, and whether or not
they fail, only specs whose paths carry the choice change, and as long as no plain spec of the prim
selects the variant every prim composes and every terminal resolves as before. The arcs of the stage
lead to plain paths, and the prim and the prims above it have plain specs. -/
theorem variant_edits_local (stage : Stage) (prim : PrimPath) (choice : VariantChoice)
    (operations : List Operation) (harcs : Opinion.ArcsPlain stage.layers)
    (hsite : VariantSite stage prim choice)
    (hunder : ∀ operation ∈ operations, operation.prim.stripChoices.isUnder prim = true) :
    (stage.afterAll operations).layerIdentifiers = stage.layerIdentifiers ∧
      (∀ place path, ¬ path.CarriesChoice prim choice →
        (stage.afterAll operations).spec? place path = stage.spec? place path) ∧
      ((∀ place spec, stage.spec? place prim = some spec →
          spec.variantSelection.get? choice.set ≠ some choice.variant) →
        (∀ path, (stage.afterAll operations).prim? path = stage.prim? path) ∧
          ∀ material kind contexts,
            Material.resolve (stage.afterAll operations) material kind contexts =
              Material.resolve stage material kind contexts) := by
  have hsame : SameOff prim choice stage (stage.afterAll operations) :=
    .of_operations hsite hunder
  refine ⟨hsame.identifiers_eq, hsame.spec_eq, ?_⟩
  intro hunselected
  have hprims := hsame.prim_eq (PrimPath.is_root_eq_false_iff.mp hsite.not_root) harcs hunselected
  exact ⟨hprims, Material.resolve_congr hprims⟩

/-- A material with two variants of which the second one is selected, a shader below it, and edits
that are redirected into the first variant. -/
def unselectedLook : Stage where
  layers := [⟨"root", .ofList [
    (⟨[.plain "M"]⟩,
      { PrimSpec.blank .define with
        typeName := some "Material"
        attributes := .ofList [("outputs:surface",
          ⟨.token, none, some [⟨⟨[.plain "M", .plain "S"]⟩, "outputs:out"⟩], false⟩)]
        variantSets := [⟨"look", ["x", "y"]⟩]
        variantSelection := .ofList [("look", "y")] }),
    (⟨[.plain "M", .plain "S"]⟩,
      { PrimSpec.blank .define with
        typeName := some "Shader"
        attributes := .ofList [("outputs:out", ⟨.token, none, none, false⟩)] }),
    (⟨[.plain "T"]⟩, .blank .define)]⟩, .blank "weak"]
  target := (EditTarget.ofLayer 0).redirect ⟨[.plain "M"]⟩ ⟨"look", "x"⟩

/-- Operations on the material and below it: they take the shader's type and the terminal's
connections away, and one of them fails. -/
def lookEdits : List Operation :=
  [.definePrim ⟨[.plain "M", .plain "S"]⟩ (some "NodeGraph"),
    .setConnections ⟨⟨[.plain "M"]⟩, "outputs:surface"⟩ [],
    .setDefault ⟨⟨[.plain "M"]⟩, "missing"⟩ (.bool true),
    .addReference ⟨[.plain "M"]⟩ ⟨[.plain "T"]⟩,
    .clearSelection ⟨[.plain "M"]⟩ "look"]

/-- Run there, the operations write the variant and leave the scene as it is. -/
theorem unselected_look_edits_local :
    ((unselectedLook.afterAll lookEdits).spec? 0
      ⟨[⟨"M", [⟨"look", "x"⟩]⟩, .plain "S"]⟩).isSome = true ∧
    (∀ path, (unselectedLook.afterAll lookEdits).prim? path = unselectedLook.prim? path) ∧
    ∀ material kind contexts,
      Material.resolve (unselectedLook.afterAll lookEdits) material kind contexts =
        Material.resolve unselectedLook material kind contexts := by
  have harcs : Opinion.ArcsPlain unselectedLook.layers := by
    unfold Opinion.ArcsPlain
    decide
  have hsite : VariantSite unselectedLook ⟨[.plain "M"]⟩ ⟨"look", "x"⟩ := by
    refine ⟨rfl, rfl, ?_, 0, rfl⟩
    intro above habove
    obtain rfl : above = ⟨[.plain "M"]⟩ := by simpa [PrimPath.ancestry, PrimPath.depth,
      PrimPath.truncate] using habove
    exact ⟨0, _, rfl⟩
  have hunselected : ∀ place spec, unselectedLook.spec? place ⟨[.plain "M"]⟩ = some spec →
      spec.variantSelection.get? "look" ≠ some "x" := by
    intro place spec hspec
    rcases place with _ | _ | place
    · cases hspec
      decide
    · cases hspec
    · cases hspec
  obtain ⟨-, -, hscene⟩ := variant_edits_local unselectedLook ⟨[.plain "M"]⟩ ⟨"look", "x"⟩
    lookEdits harcs hsite (by decide)
  exact ⟨by decide, hscene hunselected⟩

end Stage

end LayeredShading
