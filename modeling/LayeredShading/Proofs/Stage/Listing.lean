import LayeredShading.Proofs.Network.Selection
import LayeredShading.Proofs.Stage.Declarations
import LayeredShading.Proofs.Stage.Traversal

/-!
# Prims that are listed

A prim can compose although it is not listed, or although a prim above it does not compose: its own
spec stays where it was made, while the prim above may have composed only through an arc, a variant
or another layer. This does not happen where each spec of a prim has one directly above it in its
layer, or else some layer has specs of both prims (`Stage.Rooted`): then the children of a prim are
all prims that compose directly below it (`Rooted.mem_children`), so `traverse` lists the whole
scene (`Rooted.listed`). A run keeps stages rooted as long as this holds of the specs that it makes
(`Operation.Anchored`, `Rooted.after`); for these runs `Stage.composed_listed` says that no prim is
lost.
-/

namespace LayeredShading

open Opinion

/-- The names on a path are those on the path of its prim. -/
theorem PrimPath.well_named_strip_iff {path : PrimPath} :
    path.stripChoices.WellNamed ↔ path.WellNamed := by
  simp [WellNamed, stripChoices, Segment.plain]

/-! ## Chains -/

namespace Opinion

variable {layers : List Layer} {path : PrimPath}

/-- A step leads from a prim to a prim, never from or to the root. -/
theorem ArcStep.depth_pos {source : PrimPath} (h : ArcStep layers path source) :
    0 < path.depth ∧ 0 < source.depth := by
  obtain ⟨arc, harc, rest, rfl, rfl⟩ := h.exists_append
  obtain ⟨howner, hapart, -⟩ := exists_of_mem_arcs_from harc
  have hsource := PrimPath.depth_pos_of_apart hapart
  obtain ⟨hpos, -⟩ := PrimPath.mem_ancestry_iff.mp howner
  rw [PrimPath.depth_append, PrimPath.depth_append]
  omega

/-- No chain leads away from the root. -/
theorem ArcChain.eq_nil_of_root {rest : List PrimPath} (h : ArcChain layers (.root :: rest)) :
    rest = [] := by
  cases rest with
  | nil => rfl
  | cons source rest => exact absurd h.step.depth_pos.1 (Nat.lt_irrefl 0)

/-- No chain from a prim ends at the root. -/
theorem ArcChain.depth_last_pos {rest : List PrimPath} (h : ArcChain layers (path :: rest))
    (hpos : 0 < path.depth) :
    0 < ((path :: rest).getLast (List.cons_ne_nil path rest)).depth := by
  induction rest generalizing path with
  | nil => exact hpos
  | cons source rest ih =>
      rw [List.getLast_cons (List.cons_ne_nil source rest)]
      exact ih h.tail h.step.depth_pos.2

end Opinion

/-! ## Rooted stages -/

namespace Stage

variable {stage : Stage} {path : PrimPath} {name : String}

/-- The spec that a target keeps for a prim. -/
def specFor? (stage : Stage) (target : EditTarget) (path : PrimPath) : Option PrimSpec :=
  stage.spec? target.layer (target.specPath path)

/-- One layer has specs at both paths. -/
def HasBoth (stage : Stage) (above path : PrimPath) : Prop :=
  ∃ layer ∈ stage.layers, (layer.spec? above).isSome = true ∧ (layer.spec? path).isSome = true

instance (stage : Stage) (above path : PrimPath) : Decidable (stage.HasBoth above path) :=
  inferInstanceAs (Decidable (∃ layer ∈ stage.layers, _))

theorem has_both_iff {above : PrimPath} : stage.HasBoth above path ↔
    ∃ place, (stage.spec? place above).isSome = true ∧ (stage.spec? place path).isSome = true := by
  constructor
  · intro h
    obtain ⟨layer, hlayer, habove, hpath⟩ := h
    obtain ⟨place, hplace, rfl⟩ := List.mem_iff_getElem.mp hlayer
    exact ⟨place, by rwa [spec_eq hplace], by rwa [spec_eq hplace]⟩
  · intro h
    obtain ⟨place, habove, hpath⟩ := h
    obtain ⟨spec, hspec⟩ := Option.isSome_iff_exists.mp habove
    obtain ⟨hplace, -⟩ := spec_eq_some_iff.mp hspec
    rw [spec_eq hplace] at habove hpath
    exact ⟨_, List.getElem_mem hplace, habove, hpath⟩

/-- Every spec that is not at the top has a spec directly above it in the same layer, or a layer has
specs of its prim and of the prim directly above at their own paths. -/
def Rooted (stage : Stage) : Prop :=
  ∀ place site name, (stage.spec? place (site.push name)).isSome = true →
    site.isRoot = true ∨ (stage.spec? place site).isSome = true ∨
      stage.HasBoth site.stripChoices (site.push name).stripChoices

/-- Below a prim that a spec stands below, there is one that stands together with a spec of the
prim. -/
theorem Rooted.exists_stands (h : stage.Rooted) (hplain : path.hasChoices = false)
    (hpos : 0 < path.depth) (hbelow : Below stage.layers path name) :
    ∃ layer site, Stands stage.layers layer site path ∧ name ∈ layer.childNames site := by
  obtain ⟨layer, hlayer, site, hsite, hspec⟩ := hbelow
  have hstrip : site.stripChoices = path := by
    rw [strip_of_mem_local_sites hsite, PrimPath.strip_eq_self hplain]
  have hchild : (site.push name).stripChoices = path.push name := by
    rw [PrimPath.push_eq_append, PrimPath.strip_append, hstrip]
    rfl
  obtain ⟨place, hplace, rfl⟩ := List.mem_iff_getElem.mp hlayer
  have habove := h place site name (by rwa [spec_eq hplace])
  rw [spec_eq hplace, hstrip, hchild] at habove
  rcases habove with hroot | hauthored | hboth
  · have hzero := PrimPath.depth_eq_zero_iff.mpr hroot
    rw [depth_of_mem_local_sites hsite] at hzero
    omega
  · exact ⟨_, site, ⟨hlayer, hsite, hauthored⟩, mem_child_names.mpr hspec⟩
  · obtain ⟨other, hother, hauthored, hpushed⟩ := hboth
    exact ⟨other, path, ⟨hother, mem_local_sites.mpr (.inl rfl), hauthored⟩,
      mem_child_names.mpr hpushed⟩

/-- The children of a prim and of the root are all prims that compose directly below. -/
theorem Rooted.mem_children (h : stage.Rooted) (harcs : ArcsPlain stage.layers)
    (hprim : stage.hasPrim (path.push name) = true) : name ∈ stage.children path := by
  obtain ⟨-, hplain, hgather⟩ := compose_is_some_iff.mp hprim
  rw [PrimPath.has_choices_push] at hplain
  obtain ⟨rest, hchain, hlength, hbelow⟩ := exists_below_of_gather_push hgather
  rw [children]
  split
  next hroot =>
    obtain rfl := PrimPath.eq_root (PrimPath.depth_eq_zero_iff.mpr hroot)
    obtain rfl := hchain.eq_nil_of_root
    obtain ⟨layer, hlayer, site, hsite, hspec⟩ := hbelow
    obtain rfl := PrimPath.eq_root (depth_of_mem_local_sites hsite)
    exact mem_addAllNew.mpr (.inr (List.mem_flatMap.mpr ⟨layer, hlayer, mem_child_names.mpr hspec⟩))
  next hroot =>
    rw [Bool.not_eq_true] at hroot
    obtain ⟨layer, site, hstands, hname⟩ := h.exists_stands (hchain.has_choices_last harcs hplain)
      (hchain.depth_last_pos (PrimPath.is_root_eq_false_iff.mp hroot)) hbelow
    obtain ⟨opinion, hopinion, rfl, rfl⟩ : ∃ opinion ∈ gather stage.layers path,
        opinion.layer = layer ∧ opinion.site = site :=
      exists_mem_gather_within_iff.mpr ⟨rest, hchain, hlength, by simp, hstands⟩
    rw [prim?, children_of_compose hroot hplain]
    exact mem_addAllNew.mpr (.inr (List.mem_flatMap.mpr ⟨opinion, hopinion, hname⟩))

/-- A prim with children composes. -/
theorem has_prim_of_mem_children (h : name ∈ stage.children path) (hroot : path.isRoot = false) :
    stage.hasPrim path = true := by
  rw [children, hroot, if_neg Bool.false_ne_true] at h
  rw [hasPrim]
  cases hprim : stage.prim? path with
  | none => simp [hprim] at h
  | some prim => rfl

/-- On rooted stages a prim composes only together with all prims above it, and is listed. -/
theorem Rooted.listed (h : stage.Rooted) (harcs : ArcsPlain stage.layers)
    (hnamed : ∀ layer ∈ stage.layers, ∀ path ∈ layer.specs.keys, path.WellNamed)
    (hprim : stage.hasPrim path = true) :
    (∀ above ∈ path.ancestry, stage.hasPrim above = true) ∧ path ∈ stage.traverse := by
  have hlisting := traverse_consistent_listing hnamed
  -- From a prim to the one directly above it, as long as there is one.
  induction hdepth : path.depth generalizing path with
  | zero =>
      have hpos := PrimPath.is_root_eq_false_iff.mp (compose_is_some_iff.mp hprim).1
      omega
  | succ depth ih =>
      obtain ⟨hroot, hplain, -⟩ := compose_is_some_iff.mp hprim
      obtain ⟨parent, name, rfl⟩ := PrimPath.exists_eq_push hroot hplain
      have hchild := h.mem_children harcs hprim
      rw [PrimPath.ancestry_push, List.forall_mem_append, List.forall_mem_singleton]
      cases hparent : parent.isRoot with
      | true =>
          obtain rfl := PrimPath.eq_root (PrimPath.depth_eq_zero_iff.mpr hparent)
          exact ⟨⟨nofun, hprim⟩, hlisting.children_listed _ (.inl rfl) name hchild⟩
      | false =>
          rw [PrimPath.depth_push] at hdepth
          obtain ⟨habove, hmem⟩ := ih (has_prim_of_mem_children hchild hparent) (by omega)
          exact ⟨⟨habove, hprim⟩, hlisting.children_listed _ (.inr hmem) name hchild⟩

end Stage

/-! ## What operations make -/

namespace Operation

variable {operation : Operation} {stage : Stage}

/-- A spec that an operation makes is one that the target keeps for its prim or for a prim above
it. -/
theorem exists_of_made {place : Nat} {site : PrimPath}
    (hnone : stage.spec? place site = none)
    (hmade : ((stage.after operation.run).spec? place site).isSome = true) :
    place = stage.target.layer ∧ ∃ path ∈ operation.prim.ancestry,
      path.hasChoices = false ∧ site = stage.target.specPath path := by
  let reached (later : Stage) : Prop := later.target = stage.target ∧
    ∀ place site, stage.spec? place site = none → (later.spec? place site).isSome = true →
      place = stage.target.layer ∧ ∃ path ∈ operation.prim.ancestry,
        path.hasChoices = false ∧ site = stage.target.specPath path
  refine (after_of_writes reached ?_ ?_).2 place site hnone hmade
  · refine ⟨rfl, fun place site hnone hmade => ?_⟩
    rw [hnone] at hmade
    cases hmade
  · intro between later hbetween hwrite
    obtain ⟨htarget, hspecs⟩ := hbetween
    refine ⟨hwrite.target_eq.trans htarget, fun place site hnone hmade => ?_⟩
    rcases hwrite.spec_cases place site with hsame | ⟨path, _, _, hmakes, hhere, -⟩ |
      ⟨_, _, _, -, hamended⟩
    · exact hspecs place site hnone (hsame ▸ hmade)
    · obtain ⟨hroot, hplain⟩ := hmakes.scene_path
      have hself : path ∈ operation.prim.ancestry := by
        cases hmakes.path_eq_or with
        | inl hsame =>
            refine PrimPath.mem_ancestry_iff.mpr
              ⟨PrimPath.is_root_eq_false_iff.mp hroot, [], ?_⟩
            rw [hsame, PrimPath.append_nil]
        | inr habove => exact habove.2.1
      rw [htarget] at hhere
      exact ⟨hhere.1, path, hself, hplain, hhere.2⟩
    · rw [hamended, Option.isSome_map] at hmade
      exact hspecs place site hnone hmade

/-- Where an operation makes a spec for its prim or for one above it that is not at the top, it
leaves a spec for the prim directly above in the same place, or else a layer has specs of both at
their own paths. -/
def Anchored (stage : Stage) (operation : Operation) : Prop :=
  ∀ path ∈ operation.prim.ancestry, ∀ above ∈ path.parent?, above.isRoot = false →
    stage.specFor? stage.target path = none →
      ((stage.after operation.run).specFor? stage.target path).isSome = true →
        ((stage.after operation.run).specFor? stage.target above).isSome = true ∨
          (stage.after operation.run).HasBoth above path

instance (stage : Stage) (operation : Operation) : Decidable (operation.Anchored stage) :=
  inferInstanceAs (Decidable
    (∀ path ∈ operation.prim.ancestry, ∀ above ∈ path.parent?, above.isRoot = false →
      stage.specFor? stage.target path = none →
        ((stage.after operation.run).specFor? stage.target path).isSome = true →
          ((stage.after operation.run).specFor? stage.target above).isSome = true ∨
            (stage.after operation.run).HasBoth above path))

end Operation

namespace Action

/-- An operation is anchored; other actions make no specs. -/
def Anchored (stage : Stage) : Action → Prop
  | author operation => operation.Anchored stage
  | addSublayer _ | setTarget _ => True

instance (stage : Stage) : (action : Action) → Decidable (action.Anchored stage)
  | author operation => inferInstanceAs (Decidable (operation.Anchored stage))
  | addSublayer _ | setTarget _ => .isTrue trivial

/-- The prim of an operation is well named. -/
def WellNamed : Action → Prop
  | author operation => operation.prim.WellNamed
  | addSublayer _ | setTarget _ => True

instance : (action : Action) → Decidable action.WellNamed
  | author operation => inferInstanceAs (Decidable operation.prim.WellNamed)
  | addSublayer _ | setTarget _ => .isTrue trivial

/-- A spec that an action makes is made by an operation. -/
theorem exists_of_made {action : Action} {stage : Stage} {place : Nat} {site : PrimPath}
    (hnone : stage.spec? place site = none)
    (hmade : ((stage.after action.run).spec? place site).isSome = true) :
    ∃ operation, action = .author operation ∧ place = stage.target.layer ∧
      ∃ path ∈ operation.prim.ancestry,
        path.hasChoices = false ∧ site = stage.target.specPath path := by
  rcases Stage.authors_or_leaves_specs stage action with ⟨operation, rfl⟩ | hspecs
  · exact ⟨operation, rfl, operation.exists_of_made hnone hmade⟩
  · rw [hspecs, hnone] at hmade
    cases hmade

end Action

/-! ## Runs -/

namespace Stage

variable {stage : Stage} {action : Action} {actions : List Action}

/-- Every action of a run is anchored on the stage that it starts from. -/
def AnchoredRun : Stage → List Action → Prop
  | _, [] => True
  | stage, action :: rest => action.Anchored stage ∧ AnchoredRun (stage.after action.run) rest

instance : (stage : Stage) → (actions : List Action) → Decidable (stage.AnchoredRun actions)
  | _, [] => .isTrue trivial
  | stage, action :: rest =>
    have : Decidable ((stage.after action.run).AnchoredRun rest) :=
      instDecidableAnchoredRun (stage.after action.run) rest
    inferInstanceAs (Decidable (action.Anchored stage ∧ (stage.after action.run).AnchoredRun rest))

/-- All specs are at well named paths. -/
def WellNamed (stage : Stage) : Prop :=
  ∀ place site, (stage.spec? place site).isSome = true → site.WellNamed

/-- An action that makes a spec directly below a site makes it for a prim of which the target keeps
the prim directly above at the site. -/
theorem exists_parent_of_made {place : Nat} {site : PrimPath} {name : String}
    (hnone : stage.spec? place (site.push name) = none)
    (hmade : ((stage.after action.run).spec? place (site.push name)).isSome = true) :
    ∃ operation, action = .author operation ∧ place = stage.target.layer ∧
      ∃ (parent : PrimPath) (child : String), parent.push child ∈ operation.prim.ancestry ∧
        stage.target.specPath (parent.push child) = site.push name ∧
        stage.target.specPath parent = site ∧ site.stripChoices = parent ∧
        (site.push name).stripChoices = parent.push child := by
  obtain ⟨operation, haction, hplace, path, hpath, hplain, hsite⟩ :=
    Action.exists_of_made hnone hmade
  obtain ⟨parent, child, rfl⟩ : ∃ (parent : PrimPath) (child : String), path = parent.push child :=
    PrimPath.exists_eq_push
      (PrimPath.is_root_eq_false_iff.mpr (PrimPath.mem_ancestry_iff.mp hpath).1) hplain
  obtain ⟨choices, hchoices⟩ := stage.target.spec_path_push parent child
  have habove : stage.target.specPath parent = site := by
    have hsegments := congrArg PrimPath.segments (hchoices.symm.trans hsite.symm)
    obtain ⟨segments⟩ := site
    exact congrArg PrimPath.mk (List.append_inj_left' hsegments rfl)
  refine ⟨operation, haction, hplace, parent, child, hpath, hsite.symm, habove, ?_, ?_⟩
  · rw [PrimPath.has_choices_push] at hplain
    rw [← habove, EditTarget.strip_spec_path, PrimPath.strip_eq_self hplain]
  · rw [hsite, EditTarget.strip_spec_path, PrimPath.strip_eq_self hplain]

/-- Actions that are anchored keep a stage rooted. -/
theorem Rooted.after (h : stage.Rooted) (hanchored : action.Anchored stage) :
    (stage.after action.run).Rooted := by
  intro place site name hspec
  have hkept : ∀ place path, (stage.spec? place path).isSome = true →
      ((stage.after action.run).spec? place path).isSome = true := by
    intro place path hbefore
    obtain ⟨spec, hbefore⟩ := Option.isSome_iff_exists.mp hbefore
    obtain ⟨now, hnow, -⟩ := (KeepsDeclarations.after stage action).spec place path spec hbefore
    exact Option.isSome_of_eq_some hnow
  cases hbefore : stage.spec? place (site.push name) with
  | some spec =>
      refine (h place site name (Option.isSome_of_eq_some hbefore)).imp_right
        (Or.imp (hkept place site) fun hboth => ?_)
      obtain ⟨other, habove, hpath⟩ := has_both_iff.mp hboth
      exact has_both_iff.mpr ⟨other, hkept other _ habove, hkept other _ hpath⟩
  | none =>
      obtain ⟨operation, rfl, rfl, parent, child, hpath, hpushed, hsite, hparent, hchild⟩ :=
        exists_parent_of_made hbefore hspec
      cases hroot : parent.isRoot with
      | true =>
          refine .inl (PrimPath.depth_eq_zero_iff.mp ?_)
          rw [← hsite, EditTarget.depth_spec_path]
          exact PrimPath.depth_eq_zero_iff.mpr hroot
      | false =>
          have hmade := hanchored (parent.push child) hpath parent
            (PrimPath.is_child_iff.mpr ⟨child, rfl⟩).2 hroot
          simp only [specFor?, hpushed, hsite] at hmade
          rw [hparent, hchild]
          exact .inr (hmade hbefore hspec)

/-- Actions make arcs to prims only, and not to variants. -/
theorem arcs_plain_after (h : ArcsPlain stage.layers) (action : Action) :
    ArcsPlain (stage.after action.run).layers := by
  rcases authors_or_leaves_specs stage action with ⟨operation, rfl⟩ | hspecs
  · exact Operation.after_of_writes (fun later => ArcsPlain later.layers) h
      fun _ _ hbetween hwrite => hwrite.arcs_plain hbetween
  · have hbefore := (@forall_entries_iff stage fun _ spec => spec.ArcsPlain).mp h
    refine (@forall_entries_iff _ fun _ spec => spec.ArcsPlain).mpr fun place path spec hspec => ?_
    rw [hspecs] at hspec
    exact hbefore place path spec hspec

/-- Operations on well named prims make specs at well named paths. -/
theorem WellNamed.after (h : stage.WellNamed) (haction : action.WellNamed) :
    (stage.after action.run).WellNamed := by
  intro place site hspec
  cases hbefore : stage.spec? place site with
  | some spec => exact h place site (Option.isSome_of_eq_some hbefore)
  | none =>
      obtain ⟨operation, rfl, -, path, hpath, -, rfl⟩ := Action.exists_of_made hbefore hspec
      obtain ⟨-, rest, hrest⟩ := PrimPath.mem_ancestry_iff.mp hpath
      rw [← PrimPath.well_named_strip_iff, EditTarget.strip_spec_path,
        PrimPath.well_named_strip_iff]
      intro segment hsegment
      have hprim : operation.prim.WellNamed := haction
      rw [hrest] at hprim
      exact hprim segment (List.mem_append_left rest hsegment)

/-- A run that is anchored and names prims well keeps a stage rooted and well named, and its arcs
plain. -/
theorem Rooted.after_actions (h : stage.Rooted) (hnamed : stage.WellNamed)
    (harcs : ArcsPlain stage.layers) (hactions : ∀ action ∈ actions, action.WellNamed)
    (hanchored : stage.AnchoredRun actions) :
    (stage.afterActions actions).Rooted ∧ (stage.afterActions actions).WellNamed ∧
      ArcsPlain (stage.afterActions actions).layers := by
  induction actions generalizing stage with
  | nil => exact ⟨h, hnamed, harcs⟩
  | cons action rest ih =>
      obtain ⟨hfirst, hrest⟩ := List.forall_mem_cons.mp hactions
      exact ih (h.after hanchored.1) (hnamed.after hfirst) (arcs_plain_after harcs action) hrest
        hanchored.2

theorem spec_blank (place : Nat) (site : PrimPath) : blank.spec? place site = none := by
  cases place <;> rfl

/-- Composed prims are listed. After any run of actions on a blank stage that names prims well and
is anchored (where it makes a spec, there is one for the prim directly above in the same place, or
some layer has specs of both prims), every prim that composes does so together with all prims above
it, and it is listed; a material that composes is among all materials, and has its record where a
terminal is resolved everywhere. -/
theorem composed_listed {actions : List Action} (hnamed : ∀ action ∈ actions, action.WellNamed)
    (hanchored : blank.AnchoredRun actions) (hstage : blank.afterActions actions = stage)
    {path : PrimPath} (hprim : stage.hasPrim path = true) :
    (∀ above ∈ path.ancestry, stage.hasPrim above = true) ∧ path ∈ stage.traverse ∧
      (Material.isMaterial stage path = true → path ∈ Material.all stage ∧
        ∀ kind contexts, ⟨path, kind, Material.resolve stage path kind contexts⟩ ∈
          Resolution.all stage kind contexts) := by
  have hblank : blank.Rooted ∧ blank.WellNamed ∧ ArcsPlain blank.layers := by
    refine ⟨?_, ?_, ?_⟩
    · intro place site name hspec
      rw [spec_blank] at hspec
      cases hspec
    · intro place site hspec
      rw [spec_blank] at hspec
      cases hspec
    · intro layer hlayer
      obtain rfl := List.mem_singleton.mp hlayer
      exact nofun
  obtain ⟨hrooted, hpaths, harcs⟩ :=
    hblank.1.after_actions hblank.2.1 hblank.2.2 hnamed hanchored
  rw [hstage] at hrooted hpaths harcs
  have hkeys : ∀ layer ∈ stage.layers, ∀ site ∈ layer.specs.keys, site.WellNamed := by
    intro layer hlayer site hsite
    obtain ⟨place, hplace, rfl⟩ := List.mem_iff_getElem.mp hlayer
    obtain ⟨spec, hspec⟩ := SortedMap.mem_keys_iff.mp hsite
    exact hpaths place site (Option.isSome_of_eq_some (spec_eq_some_iff.mpr ⟨hplace, hspec⟩))
  obtain ⟨habove, hlisted⟩ := hrooted.listed harcs hkeys hprim
  refine ⟨habove, hlisted, fun hmaterial => ?_⟩
  have hall : path ∈ stage.traverse.filter (Material.isMaterial stage) :=
    List.mem_filter.mpr ⟨hlisted, hmaterial⟩
  refine ⟨hall, fun kind contexts => ?_⟩
  exact (Resolution.all_perm kind contexts).mem_iff.mpr (List.mem_map.mpr ⟨path, hall, rfl⟩)

/-- The path of a material below a part of a material. -/
def belowPart : PrimPath := ⟨[.plain "M", .plain "N", .plain "S"]⟩

/-- A material is based on another one with a part, gets a spec of its own for the part and a
material below it, and loses its base. The material below gets an attribute in a variant. -/
def ownPart : List Action := [
  .author (.definePrim ⟨[.plain "B", .plain "N"]⟩ none),
  .author (.definePrim ⟨[.plain "M"]⟩ (some "Material")),
  .author (.setSpecializes ⟨[.plain "M"]⟩ [⟨[.plain "B"]⟩]),
  .author (.overridePrim ⟨[.plain "M", .plain "N"]⟩),
  .author (.definePrim belowPart (some "Material")),
  .author (.clearSpecializes ⟨[.plain "M"]⟩),
  .author (.addVariant ⟨[.plain "M"]⟩ ⟨"look", "x"⟩),
  .author (.selectVariant ⟨[.plain "M"]⟩ ⟨"look", "x"⟩),
  .setTarget ((EditTarget.ofLayer 0).redirect ⟨[.plain "M"]⟩ ⟨"look", "x"⟩),
  .author (.createAttribute ⟨belowPart, "tint"⟩ .int true)]

/-- The material below the part is listed. -/
theorem own_part_listed :
    (∀ action ∈ ownPart, action.WellNamed) ∧ blank.AnchoredRun ownPart ∧
      (blank.afterActions ownPart).hasPrim belowPart = true ∧
      belowPart ∈ (blank.afterActions ownPart).traverse ∧
      belowPart ∈ Material.all (blank.afterActions ownPart) := by
  have hnamed : ∀ action ∈ ownPart, action.WellNamed := by decide
  have hanchored : blank.AnchoredRun ownPart := by decide
  have hprim : (blank.afterActions ownPart).hasPrim belowPart = true := by decide
  obtain ⟨-, hlisted, hmaterial⟩ := composed_listed hnamed hanchored rfl hprim
  exact ⟨hnamed, hanchored, hprim, hlisted, (hmaterial (by decide)).1⟩

/-- The same without a spec of its own for the part. -/
def borrowedPart : List Action := [
  .author (.definePrim ⟨[.plain "B", .plain "N"]⟩ none),
  .author (.definePrim ⟨[.plain "M"]⟩ (some "Material")),
  .author (.setSpecializes ⟨[.plain "M"]⟩ [⟨[.plain "B"]⟩]),
  .author (.definePrim belowPart (some "Material")),
  .author (.clearSpecializes ⟨[.plain "M"]⟩)]

/-- A prim is defined, and a material below it in another layer. -/
def partBelow : List Action := [
  .addSublayer "weak",
  .author (.definePrim ⟨[.plain "A"]⟩ none),
  .setTarget (.ofLayer 1),
  .author (.definePrim ⟨[.plain "A", .plain "B"]⟩ (some "Material"))]

/-- The material below the borrowed part composes and the part does not. The material in the other
layer composes together with the prim above it. Neither is listed. -/
theorem borrowed_part_not_listed :
    Material.isMaterial (blank.afterActions borrowedPart) belowPart = true ∧
      (blank.afterActions borrowedPart).hasPrim ⟨[.plain "M", .plain "N"]⟩ = false ∧
      belowPart ∉ (blank.afterActions borrowedPart).traverse ∧
      Material.isMaterial (blank.afterActions partBelow) ⟨[.plain "A", .plain "B"]⟩ = true ∧
      (blank.afterActions partBelow).traverse = [⟨[.plain "A"]⟩] ∧
      Material.all (blank.afterActions partBelow) = [] ∧
      ∀ kind contexts, Resolution.all (blank.afterActions partBelow) kind contexts = [] := by
  have hnone : Material.all (blank.afterActions partBelow) = [] := by decide
  refine ⟨by decide, by decide, by decide, by decide, by decide, hnone, fun kind contexts => ?_⟩
  rw [Resolution.all, hnone, List.map_nil, List.mergeSort_nil]

end Stage

end LayeredShading
