import LayeredShading.Proofs.Network.EditScope
import LayeredShading.Proofs.Network.Selection
import LayeredShading.Proofs.Stage.Atomicity
import LayeredShading.Proofs.Stage.View

/-!
# Edits in a scope

A scope on the selected variant of a material puts its choice on the paths of all opinions on the
material and below. Composition looks into a variant of the material only if the material's own
specs select and declare it, and never into a variant within another one. So what is authored in the
scope is in view exactly if the scope shows (`in_view_of_scope_iff`): no other redirection applies,
and the selection is the material's own. `EditScope.edits_show` says this of definitions and
declarations; `EditScope.buried_edits_hidden` has edits that succeed and do not show.
-/

namespace LayeredShading

open Opinion

/-! ## Choices at a prim -/

/-- A choice that is added to a path can be taken away again. -/
theorem PrimPath.choose_left_inj {path other : PrimPath} {depth : Nat} {choice : VariantChoice}
    (h : path.choose depth choice = other.choose depth choice) : path = other := by
  cases depth with
  | zero => exact h
  | succ index =>
      obtain ⟨segments⟩ := path
      obtain ⟨others⟩ := other
      simp only [choose, mk.injEq] at h ⊢
      apply List.ext_getElem?
      intro position
      have hat := congrArg (·[position]?) h
      simp only [List.getElem?_modify] at hat
      refine Option.map_injective (fun own more hsame => ?_) hat
      cases own
      cases more
      split at hsame <;> simp_all

namespace Opinion

variable {layers : List Layer}

/-- The variants selected on the way to a path at the depth of a prim above it are those that the
prim chooses. -/
theorem mem_selections_on_iff {prim path : PrimPath} {choice : VariantChoice}
    (hpos : 0 < prim.depth) (hunder : path.isUnder prim = true) :
    (prim.depth, choice) ∈ selectionsOn layers path ↔ choice ∈ choicesAt layers prim := by
  obtain ⟨rest, rfl⟩ := PrimPath.is_under_iff.mp hunder
  simp only [selectionsOn, List.mem_flatMap, List.mem_map, Prod.mk.injEq]
  constructor
  · rintro ⟨above, habove, _, hchoice, hdepth, rfl⟩
    -- both are as deep and on the same way
    obtain ⟨-, others, hothers⟩ := PrimPath.mem_ancestry_iff.mp habove
    have hsegments : prim.segments ++ rest = above.segments ++ others :=
      congrArg PrimPath.segments hothers
    have hprefix := (List.append_inj hsegments hdepth.symm).1
    obtain rfl : prim = above := by
      cases prim
      cases above
      exact congrArg PrimPath.mk hprefix
    exact hchoice
  · intro hchoice
    exact ⟨prim, PrimPath.mem_ancestry_iff.mpr ⟨hpos, rest, rfl⟩, choice, hchoice, rfl, rfl⟩

end Opinion

/-! ## Scopes that show -/

/-- Authoring on a prim within a scope shows on the composed prim: outside of the scope it is not
redirected, and the specs of the scope's prim themselves select the variant and declare it. -/
structure EditScope.Shows (scope : EditScope) (stage : Stage) (path : PrimPath) : Prop where
  not_redirected : scope.previous.specPath path = path
  selected : (specsAt stage.layers scope.prim).findSome?
    (·.variantSelection.get? scope.choice.set) = some scope.choice.variant
  declared : ∃ spec ∈ specsAt stage.layers scope.prim, spec.declares scope.choice = true

instance (scope : EditScope) (stage : Stage) (path : PrimPath) :
    Decidable (scope.Shows stage path) :=
  decidable_of_iff
    (scope.previous.specPath path = path ∧
      (specsAt stage.layers scope.prim).findSome? (·.variantSelection.get? scope.choice.set) =
        some scope.choice.variant ∧
      ∃ spec ∈ specsAt stage.layers scope.prim, spec.declares scope.choice = true)
    ⟨fun ⟨hpath, hselected, hdeclared⟩ => ⟨hpath, hselected, hdeclared⟩,
      fun ⟨hpath, hselected, hdeclared⟩ => ⟨hpath, hselected, hdeclared⟩⟩

/-- In a scope that shows the selected variant is one that the prim chooses. -/
theorem EditScope.shows_iff {scope : EditScope} {stage : Stage} {path : PrimPath} :
    scope.Shows stage path ↔ scope.previous.specPath path = path ∧
      scope.choice ∈ choicesAt stage.layers scope.prim := by
  rw [mem_choices_at_iff, mem_selected_at_iff]
  exact ⟨fun h => ⟨h.not_redirected, h.selected, h.declared⟩,
    fun ⟨hpath, hselected, hdeclared⟩ => ⟨hpath, hselected, hdeclared⟩⟩

/-- What is authored in a scope is in view exactly if the scope shows. -/
theorem Stage.in_view_of_scope_iff {stage : Stage} {scope : EditScope} {layer : Nat}
    {path : PrimPath} (hroot : scope.prim.isRoot = false)
    (hprimPlain : scope.prim.hasChoices = false)
    (hplain : path.hasChoices = false) (hunder : path.isUnder scope.prim = true)
    (htarget : stage.target =
      (scope.previous.withLayer layer).redirect scope.prim scope.choice) :
    stage.InView path ↔ scope.Shows stage path := by
  have hpos := PrimPath.is_root_eq_false_iff.mp hroot
  have hle : scope.prim.depth ≤ path.depth := by
    obtain ⟨rest, rfl⟩ := PrimPath.is_under_iff.mp hunder
    rw [PrimPath.depth_append]
    omega
  have hsite : stage.target.specPath path =
      (scope.previous.specPath path).choose scope.prim.depth scope.choice := by
    rw [htarget, EditTarget.spec_path_redirect, PrimPath.strip_eq_self hprimPlain,
      PrimPath.strip_eq_self hplain, if_pos hunder]
    rfl
  rw [InView, hsite, mem_local_sites, EditScope.shows_iff]
  constructor
  · intro hlocal
    have hcarries : ((scope.previous.specPath path).choose scope.prim.depth
        scope.choice).CarriesChoice scope.prim scope.choice := by
      refine PrimPath.carries_choose hpos ?_
      rwa [EditTarget.strip_spec_path, PrimPath.strip_eq_self hplain]
    rcases hlocal with hself | ⟨depth, choice, hselection, -, hchosen⟩
    · exact absurd (hself ▸ hcarries) (PrimPath.not_carries_of_plain hplain)
    · -- a site carries one choice, so it is that of the scope and there is no other
      rw [hchosen] at hcarries
      obtain ⟨rfl, rfl⟩ := PrimPath.eq_of_carries_choose hpos hplain hcarries
      exact ⟨PrimPath.choose_left_inj hchosen, (mem_selections_on_iff hpos hunder).mp hselection⟩
  · intro hshows
    rw [hshows.1]
    exact .inr ⟨_, _, (mem_selections_on_iff hpos hunder).mpr hshows.2, hle, rfl⟩

/-- A scope for the selected variant of a set is opened on a prim that composes and reports the
selection, and all that changes is the target. -/
theorem Material.of_run_enter_selected {stage entered : Stage} {material : PrimPath} {set : String}
    {layer : Option Nat} {scope : EditScope}
    (h : (enterSelected material set layer).run stage = .ok scope entered) :
    scope.prim = material ∧ scope.choice.set = set ∧ scope.previous = stage.target ∧
      VariantSet.selection? stage material set = some scope.choice.variant ∧
      stage.hasPrim material = true ∧
      scope.target = (stage.target.withLayer (layer.getD stage.target.layer)).redirect material
        scope.choice ∧ entered = { stage with target := scope.target } := by
  rw [enterSelected, Edit.run_bind_eq_ok] at h
  simp only [Edit.run_get_eq_ok] at h
  obtain ⟨_, _, ⟨rfl, rfl⟩, h⟩ := h
  cases hfound : VariantSet.find? stage material set with
  | none =>
      simp only [hfound] at h
      exact absurd h Edit.run_throw_ne_ok
  | some composed =>
      cases hselected : composed.selection with
      | none =>
          simp only [hfound, hselected] at h
          exact absurd h Edit.run_throw_ne_ok
      | some variant =>
          simp only [hfound, hselected] at h
          rw [EditScope.enter, Edit.run_bind_eq_ok] at h
          simp only [Edit.run_require_variant_eq_ok] at h
          obtain ⟨_, _, ⟨hvariant, rfl⟩, h⟩ := h
          rw [Edit.run_bind_eq_ok] at h
          simp only [Edit.run_get_eq_ok] at h
          obtain ⟨_, _, ⟨rfl, rfl⟩, h⟩ := h
          rw [Edit.run_bind_eq_ok] at h
          simp only [Edit.run_set_target_eq_ok, Edit.run_pure_eq_ok] at h
          obtain ⟨_, _, ⟨-, rfl⟩, rfl, rfl⟩ := h
          obtain ⟨hroot, hplain, opinion, hopinion, -⟩ := VariantSet.has_variant_iff.mp hvariant
          refine ⟨rfl, rfl, rfl, ?_, ?_, rfl, rfl⟩
          · show (VariantSet.find? stage material set).bind (·.selection) = _
            rw [hfound, Option.bind_some, hselected]
          · exact compose_is_some_iff.mpr ⟨hroot, hplain, List.ne_nil_of_mem hopinion⟩

/-! ## Definitions in a scope -/

namespace Stage

section Define

variable {stage later : Stage} {path : PrimPath} {typeName : Option String}
  (h : (Edit.definePrim path typeName).run stage = .ok () later)

include h

/-- A prim that is defined in view composes, and one that composed before still does. -/
theorem has_prim_of_run_define (hshown : stage.hasPrim path = true ∨ stage.InView path) :
    later.hasPrim path = true := by
  have hafter := Edit.after_of_ok h
  rcases hshown with hprim | hview
  · have hextended : Extended stage.layers later.layers := by
      rw [← hafter]
      exact @Operation.after_of_writes (.definePrim path typeName) stage
        (fun later => Extended stage.layers later.layers) (.refl _)
        fun _ _ hbetween hwrite => hbetween.trans hwrite.extended
    exact hextended.compose_is_some hprim
  · obtain ⟨htarget, halike⟩ := alike_after_define stage path typeName
    rw [hafter] at htarget halike
    obtain ⟨hroot, hplain, spec, hspec⟩ := exists_spec_of_run_define h
    exact has_prim_of_local_site hroot hplain ((InView.iff_of_alike halike htarget).mpr hview) hspec

/-- A definition out of view, of a prim below prims that compose, leaves every composed prim as it
is. -/
theorem prim_eq_of_run_define (harcs : ArcsPlain stage.layers) (hout : ¬ stage.InView path)
    (habove : ∀ above ∈ path.ancestry.dropLast, stage.hasPrim above = true) (other : PrimPath) :
    later.prim? other = stage.prim? other := by
  obtain ⟨-, hplain, -⟩ := exists_spec_of_run_define h
  let reached (later : Stage) : Prop := later.target = stage.target ∧
    Alike stage.layers later.layers ∧ ArcsPlain later.layers ∧
      ∀ other, later.prim? other = stage.prim? other
  have hreached : reached (stage.after (Edit.definePrim path typeName)) := by
    refine @Operation.after_of_writes (.definePrim path typeName) stage reached
      ⟨rfl, fun _ => rfl, harcs, fun _ => rfl⟩ ?_
    intro between later hbetween hwrite
    obtain ⟨htarget, halike, hplainArcs, hsame⟩ := hbetween
    refine ⟨hwrite.target_eq.trans htarget, ?_, hwrite.arcs_plain hplainArcs, ?_⟩
    · exact fun site => (halike site).trans (hwrite.alike_of_define site)
    · intro other
      have hhidden : ¬ between.InView path :=
        fun hview => hout ((InView.iff_of_alike halike htarget).mp hview)
      cases hwrite with
      | amended hamends => cases hamends
      | made hmakes hlayer =>
          cases hmakes with
          | definePrim =>
              exact (prim_eq_of_out_of_view hplainArcs hplain hhidden other).trans (hsame other)
          | defineAbove _ hmem hmissing =>
              -- the prims above compose, so none of them is made
              rw [hasPrim, hsame, ← hasPrim, habove _ hmem] at hmissing
              cases hmissing
  rw [Edit.after_of_ok h] at hreached
  exact hreached.2.2.2 other

end Define

end Stage

/-! ## What shows -/

namespace EditScope

/-- Edits in a scope show as far as the scope does. On whatever is authored on a blank stage, with
any scopes left open, a scope is opened on the selected variant of a material, and whatever is
authored then leaves the target to it. What is declared successfully on the material or below it is
declared on the composed prim exactly if it was before or the scope shows, so if no earlier
redirection applies there and the material's own specs select and declare the variant. A prim that
is defined successfully composes in these cases, and if all prims above it composed before only in
these. -/
theorem edits_show {α β : Type} {program : Edit α} {more : Edit β} (hprogram : program.Authored)
    (hmore : more.Authored) {material : PrimPath} {set : String} {layer : Option Nat}
    {scope : EditScope} {entered stage : Stage}
    (henter : (Material.enterSelected material set layer).run (Stage.blank.after program) =
      .ok scope entered)
    (hstage : entered.after more = stage) (hinnermost : stage.target = scope.target)
    {path : PrimPath} (hunder : path.isUnder material = true) :
    (∀ typeName later, (Edit.definePrim path typeName).run stage = .ok () later →
      (stage.hasPrim path = true ∨ scope.Shows stage path → later.hasPrim path = true) ∧
        ((∀ above ∈ path.ancestry.dropLast, stage.hasPrim above = true) →
          later.hasPrim path = true → stage.hasPrim path = true ∨ scope.Shows stage path)) ∧
      ∀ name type custom later, isPropertyName name = true →
        (Edit.createAttribute ⟨path, name⟩ type custom).run stage = .ok () later →
          ((later.attribute? ⟨path, name⟩).isSome = true ↔
            (stage.attribute? ⟨path, name⟩).isSome = true ∨ scope.Shows stage path) := by
  obtain ⟨rfl, -, hprevious, -, hprim, htarget, hentered⟩ := Material.of_run_enter_selected henter
  obtain ⟨hroot, hprimPlain, -⟩ := compose_is_some_iff.mp hprim
  have harcs : ArcsPlain stage.layers := by
    rw [← hstage, hentered]
    exact hmore.arcs_plain (Stage.arcs_plain_of_authored hprogram)
  have hview : path.hasChoices = false → (stage.InView path ↔ scope.Shows stage path) := by
    intro hplain
    have hscope := hinnermost.trans htarget
    rw [← hprevious] at hscope
    exact Stage.in_view_of_scope_iff hroot hprimPlain hplain hunder hscope
  refine ⟨fun typeName later hrun => ?_, fun name type custom later hname hrun => ?_⟩
  · obtain ⟨-, hplain, -⟩ := Stage.exists_spec_of_run_define hrun
    rw [← hview hplain]
    refine ⟨Stage.has_prim_of_run_define hrun, fun habove hlater => ?_⟩
    by_cases hshown : stage.InView path
    · exact .inr hshown
    · rw [Stage.hasPrim, Stage.prim_eq_of_run_define hrun harcs hshown habove] at hlater
      exact .inl hlater
  · obtain ⟨hcomposed, -⟩ := Stage.changed_of_run_create hrun
    obtain ⟨-, hplain, -⟩ := compose_is_some_iff.mp hcomposed
    rw [← hview hplain]
    constructor
    · intro hlater
      by_cases hshown : stage.InView path
      · exact .inr hshown
      · rw [Stage.attribute_eq_of_run_create hrun harcs hshown] at hlater
        exact .inl hlater
    · intro hshown
      have htype := Stage.attribute_type_of_run_create hrun hname hshown
      rw [← Option.isSome_map, htype]
      rfl

/-- Two materials with a selected variant each, a scope that is open on the second one, and a weaker
layer. -/
def lookBesideLook : Edit Unit := do
  Material.define ⟨[.plain "M"]⟩
  Edit.addVariant ⟨[.plain "M"]⟩ ⟨"look", "x"⟩
  Edit.selectVariant ⟨[.plain "M"]⟩ ⟨"look", "x"⟩
  Material.define ⟨[.plain "N"]⟩
  Edit.addVariant ⟨[.plain "N"]⟩ ⟨"look", "y"⟩
  Edit.selectVariant ⟨[.plain "N"]⟩ ⟨"look", "y"⟩
  let _ ← Material.enterSelected ⟨[.plain "N"]⟩ "look" none
  let _ ← Edit.addSublayer "details"

/-- The scope on the first one in that layer. -/
def detailsScope : EditScope where
  prim := ⟨[.plain "M"]⟩
  choice := ⟨"look", "x"⟩
  target := (((EditTarget.ofLayer 1).redirect ⟨[.plain "N"]⟩ ⟨"look", "y"⟩).redirect
    ⟨[.plain "M"]⟩ ⟨"look", "x"⟩)
  previous := (EditTarget.ofLayer 0).redirect ⟨[.plain "N"]⟩ ⟨"look", "y"⟩
  state := .active

/-- It shows: a shader that is defined below the material composes, and an attribute that is
declared on the material is declared. -/
theorem edits_in_look_show :
    ∃ entered, (Material.enterSelected ⟨[.plain "M"]⟩ "look" (some 1)).run
        (Stage.blank.after lookBesideLook) = .ok detailsScope entered ∧
      entered.target = detailsScope.target ∧
      (∃ later, (Edit.definePrim ⟨[.plain "M", .plain "S"]⟩ (some "Shader")).run entered =
          .ok () later ∧ later.hasPrim ⟨[.plain "M", .plain "S"]⟩ = true) ∧
      ∃ later, (Edit.createAttribute ⟨⟨[.plain "M"]⟩, "x"⟩ .float true).run entered =
          .ok () later ∧ (later.attribute? ⟨⟨[.plain "M"]⟩, "x"⟩).isSome = true := by
  have hauthored : lookBesideLook.Authored :=
    .bind_any (Material.authored_define _) fun _ =>
    .bind_any (.of_no_attribute (.addVariant _ _) rfl) fun _ =>
    .bind_any (.of_no_attribute (.selectVariant _ _) rfl) fun _ =>
    .bind_any (Material.authored_define _) fun _ =>
    .bind_any (.of_no_attribute (.addVariant _ _) rfl) fun _ =>
    .bind_any (.of_no_attribute (.selectVariant _ _) rfl) fun _ =>
    .bind_any (Material.authored_enter_selected _ _ _) fun _ =>
    .bind_any (.addSublayer _) fun _ => .pure _
  let entered : Stage := { Stage.blank.after lookBesideLook with target := detailsScope.target }
  have henter : (Material.enterSelected ⟨[.plain "M"]⟩ "look" (some 1)).run
      (Stage.blank.after lookBesideLook) = .ok detailsScope entered := rfl
  have hdefine : (Edit.definePrim ⟨[.plain "M", .plain "S"]⟩ (some "Shader")).run entered =
      .ok () _ := Edit.run_eq_ok_after (by decide)
  have hcreate : (Edit.createAttribute ⟨⟨[.plain "M"]⟩, "x"⟩ .float true).run entered =
      .ok () _ := Edit.run_eq_ok_after (by decide)
  obtain ⟨hdefined, -⟩ := @edits_show _ _ _ _ hauthored (.pure ()) _ _ _ _ _ entered henter rfl rfl
    ⟨[.plain "M", .plain "S"]⟩ (by decide)
  obtain ⟨-, hdeclared⟩ := @edits_show _ _ _ _ hauthored (.pure ()) _ _ _ _ _ entered henter rfl
    rfl ⟨[.plain "M"]⟩ (by decide)
  refine ⟨entered, henter, rfl, ⟨_, hdefine, ?_⟩, _, hcreate, ?_⟩
  · exact (hdefined _ _ hdefine).1 (.inr (by decide))
  · exact (hdeclared _ _ _ _ (by decide) hcreate).mpr (.inr (by decide))

/-- A material with two sets and a selected variant in each, and a scope that is open on the variant
of the first set. -/
def lookWithinLook : Edit Unit := do
  Material.define ⟨[.plain "M"]⟩
  Edit.addVariant ⟨[.plain "M"]⟩ ⟨"s", "v"⟩
  Edit.selectVariant ⟨[.plain "M"]⟩ ⟨"s", "v"⟩
  Edit.addVariant ⟨[.plain "M"]⟩ ⟨"t", "w"⟩
  Edit.selectVariant ⟨[.plain "M"]⟩ ⟨"t", "w"⟩
  let _ ← Material.enterSelected ⟨[.plain "M"]⟩ "s" none

/-- A material whose variant set is declared and selected on a prim that it refers to. -/
def borrowedLook : Edit Unit := do
  Edit.definePrim ⟨[.plain "T"]⟩ none
  Edit.addVariant ⟨[.plain "T"]⟩ ⟨"t", "w"⟩
  Edit.selectVariant ⟨[.plain "T"]⟩ ⟨"t", "w"⟩
  Material.define ⟨[.plain "M"]⟩
  Edit.addReference ⟨[.plain "M"]⟩ ⟨[.plain "T"]⟩

/-- In either case a scope is opened on the selected variant of the second set, a definition below
the material and a declaration on it succeed in the scope, and neither shows. -/
theorem buried_edits_hidden :
    lookWithinLook.Authored ∧ borrowedLook.Authored ∧
      ∀ program ∈ [lookWithinLook, borrowedLook], ∃ scope entered,
        (Material.enterSelected ⟨[.plain "M"]⟩ "t" none).run (Stage.blank.after program) =
            .ok scope entered ∧ entered.target = scope.target ∧
          (∃ later, (Edit.definePrim ⟨[.plain "M", .plain "S"]⟩ none).run entered =
            .ok () later ∧ later.hasPrim ⟨[.plain "M", .plain "S"]⟩ = false) ∧
          ∃ later, (Edit.createAttribute ⟨⟨[.plain "M"]⟩, "x"⟩ .float true).run entered =
            .ok () later ∧ later.attribute? ⟨⟨[.plain "M"]⟩, "x"⟩ = none := by
  refine ⟨?_, ?_, ?_⟩
  · exact .bind_any (Material.authored_define _) fun _ =>
      .bind_any (.of_no_attribute (.addVariant _ _) rfl) fun _ =>
      .bind_any (.of_no_attribute (.selectVariant _ _) rfl) fun _ =>
      .bind_any (.of_no_attribute (.addVariant _ _) rfl) fun _ =>
      .bind_any (.of_no_attribute (.selectVariant _ _) rfl) fun _ =>
      .bind_any (Material.authored_enter_selected _ _ _) fun _ => .pure _
  · exact .bind_any (.of_no_attribute (.definePrim _ _) rfl) fun _ =>
      .bind_any (.of_no_attribute (.addVariant _ _) rfl) fun _ =>
      .bind_any (.of_no_attribute (.selectVariant _ _) rfl) fun _ =>
      .bind_any (Material.authored_define _) fun _ =>
      .of_no_attribute (.addReference _ _) rfl
  · intro program hprogram
    rcases List.mem_pair.mp hprogram with rfl | rfl
    all_goals
      refine ⟨_, _, rfl, rfl, ⟨_, Edit.run_eq_ok_after ?_, ?_⟩, _, Edit.run_eq_ok_after ?_, ?_⟩
      all_goals decide

end EditScope

end LayeredShading
