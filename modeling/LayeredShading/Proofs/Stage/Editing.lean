import LayeredShading.Network.EditScope
import LayeredShading.Proofs.Path.Placement

/-!
# Runs of edits

What a run of an edit that ends without an error has read and changed. The operations come down to
one change of one spec: `Stage.changed` is the stage after it, and `spec_changed` says what its
specs are. A run is taken apart at its steps by `run_bind_eq_ok`; the lemmas `run_…_eq_ok` give for
each operation the condition under which it succeeds and the stage that it leaves.
-/

namespace LayeredShading

theorem Specifier.join_override (specifier : Specifier) :
    specifier.join .override = specifier := by
  cases specifier <;> rfl

/-- A layer's spec at the path of a change is made of what was there, or of a blank one. -/
theorem Layer.spec_change_spec (layer : Layer) (site : PrimPath) (specifier : Specifier)
    (change : PrimSpec → PrimSpec) (path : PrimPath) :
    (layer.changeSpec site specifier change).spec? path =
      if path = site then
        let own := (layer.spec? site).getD (.blank specifier)
        some (change { own with specifier := own.specifier.join specifier })
      else layer.spec? path := by
  rw [changeSpec, spec?, SortedMap.get?_update]
  rfl

namespace Stage

/-- The stage after a change of the spec at a path in the layer of an index. -/
def changed (stage : Stage) (place : Nat) (site : PrimPath) (specifier : Specifier)
    (change : PrimSpec → PrimSpec) : Stage :=
  { stage with layers := stage.layers.modify place fun layer =>
      layer.changeSpec site specifier change }

variable {stage : Stage} {place : Nat} {site : PrimPath} {specifier : Specifier}
  {change : PrimSpec → PrimSpec}

/-- A stage has a spec exactly if the layer has it. -/
theorem spec_eq_some_iff {path : PrimPath} {spec : PrimSpec} :
    stage.spec? place path = some spec ↔
      ∃ hplace : place < stage.layers.length, stage.layers[place].spec? path = some spec := by
  rw [spec?, Option.bind_eq_bind, Option.bind_eq_some_iff]
  constructor
  · rintro ⟨layer, hlayer, hspec⟩
    obtain ⟨hplace, rfl⟩ := List.getElem?_eq_some_iff.mp hlayer
    exact ⟨hplace, hspec⟩
  · rintro ⟨hplace, hspec⟩
    exact ⟨_, List.getElem?_eq_getElem hplace, hspec⟩

theorem spec_eq (hplace : place < stage.layers.length) (path : PrimPath) :
    stage.spec? place path = stage.layers[place].spec? path := by
  rw [spec?, List.getElem?_eq_getElem hplace]
  rfl

/-- The specs of a stage at a path are those of its layers. -/
theorem mem_specs_at {path : PrimPath} {spec : PrimSpec} :
    spec ∈ Opinion.specsAt stage.layers path ↔ ∃ place, stage.spec? place path = some spec := by
  simp only [Opinion.specsAt, List.mem_filterMap, spec_eq_some_iff]
  constructor
  · rintro ⟨layer, hlayer, hspec⟩
    obtain ⟨place, hplace, rfl⟩ := List.mem_iff_getElem.mp hlayer
    exact ⟨place, hplace, hspec⟩
  · rintro ⟨place, hplace, hspec⟩
    exact ⟨_, List.getElem_mem hplace, hspec⟩

/-- What holds of all entries of all layers holds of all specs of the stage. -/
theorem entry_of_spec {path : PrimPath} {spec : PrimSpec}
    (h : stage.spec? place path = some spec) :
    ∃ layer ∈ stage.layers, (path, spec) ∈ layer.specs.entries := by
  obtain ⟨hplace, hspec⟩ := spec_eq_some_iff.mp h
  exact ⟨_, List.getElem_mem hplace, SortedMap.get?_eq_some_iff.mp hspec⟩

/-- The entries of all layers are the specs of the stage. -/
theorem forall_entries_iff {holds : PrimPath → PrimSpec → Prop} :
    (∀ layer ∈ stage.layers, ∀ entry ∈ layer.specs.entries, holds entry.1 entry.2) ↔
      ∀ place path spec, stage.spec? place path = some spec → holds path spec := by
  constructor
  · intro h place path spec hspec
    obtain ⟨layer, hlayer, hentry⟩ := entry_of_spec hspec
    exact h layer hlayer (path, spec) hentry
  · intro h layer hlayer entry hentry
    obtain ⟨place, hplace, rfl⟩ := List.mem_iff_getElem.mp hlayer
    exact h place entry.1 entry.2
      (spec_eq_some_iff.mpr ⟨hplace, SortedMap.get?_eq_some_iff.mpr hentry⟩)

@[simp]
theorem target_changed : (stage.changed place site specifier change).target = stage.target := rfl

@[simp]
theorem length_layers_changed :
    (stage.changed place site specifier change).layers.length = stage.layers.length := by
  simp [changed]

/-- A change makes a spec of what was there, or of a blank one, and leaves all other specs as they
are. -/
theorem spec_changed (hplace : place < stage.layers.length) (other : Nat) (path : PrimPath) :
    (stage.changed place site specifier change).spec? other path =
      if other = place ∧ path = site then
        let own := (stage.spec? place site).getD (.blank specifier)
        some (change { own with specifier := own.specifier.join specifier })
      else stage.spec? other path := by
  by_cases hother : other = place
  · subst hother
    have hlayer : stage.layers[other]? = some stage.layers[other] := List.getElem?_eq_getElem hplace
    have hchanged : (stage.changed other site specifier change).spec? other path =
        (stage.layers[other].changeSpec site specifier change).spec? path := by
      rw [spec?, changed, List.getElem?_modify_eq, hlayer]
      rfl
    rw [hchanged, spec_eq hplace, spec_eq hplace, Layer.spec_change_spec]
    simp only [true_and]
  · have hlayer : (stage.changed place site specifier change).layers[other]? =
        stage.layers[other]? := by
      have hne : place ≠ other := Ne.symm hother
      simp [changed, hne]
    rw [spec?, hlayer, if_neg (fun h => hother h.1)]
    rfl

/-- What holds of all specs does so after a change that keeps it for specs at its path and for a
blank one. -/
theorem forall_spec_changed {holds : PrimPath → PrimSpec → Prop}
    (h : ∀ place path spec, stage.spec? place path = some spec → holds path spec)
    (hblank : holds site (.blank specifier))
    (hchange : ∀ spec : PrimSpec, holds site spec →
      holds site (change { spec with specifier := spec.specifier.join specifier }))
    (other : Nat) (path : PrimPath) (spec : PrimSpec)
    (hspec : (stage.changed place site specifier change).spec? other path = some spec) :
    holds path spec := by
  by_cases hplace : place < stage.layers.length
  · rw [spec_changed hplace] at hspec
    split at hspec
    next hhere =>
      obtain rfl := Option.some.inj hspec
      rw [hhere.2]
      refine hchange _ ?_
      cases hfound : stage.spec? place site with
      | none => exact hblank
      | some own => exact h place site own hfound
    next => exact h other path spec hspec
  · rw [changed, List.modify_eq_self (Nat.le_of_not_lt hplace)] at hspec
    exact h other path spec hspec

end Stage

namespace Edit

variable {α β : Type} {stage after : Stage}

/-! ## Steps -/

/-- A sequence ends without an error exactly if both parts do, one after the other. -/
theorem run_bind_eq_ok {program : Edit α} {next : α → Edit β} {result : β} :
    (program >>= next).run stage = .ok result after ↔
      ∃ value between, program.run stage = .ok value between ∧
        (next value).run between = .ok result after := by
  rw [EStateM.run_bind]
  cases program.run stage with
  | ok value between => simp
  | error error between => simp

/-- After a part that ends without an error comes the rest. -/
theorem run_bind_of_ok {program : Edit α} {next : α → Edit β} {value : α} {between : Stage}
    (h : program.run stage = .ok value between) :
    (program >>= next).run stage = (next value).run between := by
  rw [EStateM.run_bind, h]

/-- After a part that fails comes nothing. -/
theorem run_bind_of_error {program : Edit α} {next : α → Edit β} {error : Error}
    {between : Stage} (h : program.run stage = .error error between) :
    (program >>= next).run stage = .error error between := by
  rw [EStateM.run_bind, h]

/-- A round of a loop is run before the others. -/
theorem run_for_m_cons_eq_ok {β : Type} {round : β → Edit Unit} {element : β} {rest : List β} :
    ((element :: rest).forM round).run stage = .ok () after ↔
      ∃ between, (round element).run stage = .ok () between ∧
        (rest.forM round).run between = .ok () after := by
  have hcons : (element :: rest).forM round = (round element >>= fun _ => rest.forM round) := rfl
  rw [hcons, run_bind_eq_ok]
  constructor
  · rintro ⟨_, h⟩
    exact h
  · exact fun h => ⟨(), h⟩

theorem run_pure_eq_ok {value result : α} :
    (pure value : Edit α).run stage = .ok result after ↔ value = result ∧ stage = after := by
  simp

theorem run_get_eq_ok {result : Stage} :
    (get : Edit Stage).run stage = .ok result after ↔ stage = result ∧ stage = after := by
  simp

theorem run_throw_ne_ok {error : Error} {result : α} :
    (throw error : Edit α).run stage ≠ .ok result after := nofun

/-- A check passes a result on and changes nothing. -/
theorem run_check_eq_ok {checked : Except Error α} {result : α} :
    (check checked).run stage = .ok result after ↔ checked = .ok result ∧ stage = after := by
  cases checked with
  | ok value => simp [check]
  | error error => simpa [check] using run_throw_ne_ok

/-- A handler goes on from the stage that the failed program leaves. -/
theorem run_try_catch {program : Edit α} {handler : Error → Edit α} :
    (tryCatch program handler).run stage = match program.run stage with
      | .ok value between => .ok value between
      | .error error between => (handler error).run between := by
  show EStateM.tryCatch program handler stage = _
  unfold EStateM.tryCatch EStateM.run
  cases program stage <;> rfl

/-- An observed program does not fail. It gives what the program comes to and leaves the stage that
the program leaves. -/
theorem run_observing {program : Edit α} :
    (observing program).run stage = match program.run stage with
      | .ok value between => .ok (.ok value) between
      | .error error between => .ok (.error error) between := by
  rw [observing, run_try_catch, EStateM.run_bind]
  cases program.run stage <;> rfl

/-- What a handler rethrows is an error, so only the program itself ends without one. -/
theorem run_rethrow_eq_ok {program : Edit α} {cleanup : Edit Unit} {result : α} :
    (tryCatch program fun error => do
        cleanup
        throw error).run stage = .ok result after ↔ program.run stage = .ok result after := by
  rw [run_try_catch]
  cases program.run stage with
  | ok value between => simp
  | error error between =>
      simp only [run_bind_eq_ok, reduceCtorEq, iff_false]
      rintro ⟨_, _, -, h⟩
      exact run_throw_ne_ok h

/-! ## Operations -/

/-- A composed prim is required without a change. -/
theorem run_require_prim_eq_ok {path : PrimPath} {prim : ComposedPrim} :
    (requirePrim path).run stage = .ok prim after ↔
      stage.prim? path = some prim ∧ stage = after := by
  rw [requirePrim, run_bind_eq_ok]
  simp only [run_get_eq_ok]
  constructor
  · rintro ⟨_, _, ⟨rfl, rfl⟩, h⟩
    cases hprim : stage.prim? path with
    | none => simp only [hprim] at h; exact absurd h run_throw_ne_ok
    | some found =>
        simp only [hprim, run_pure_eq_ok] at h
        exact ⟨congrArg some h.1, h.2⟩
  · rintro ⟨hprim, rfl⟩
    exact ⟨stage, stage, ⟨rfl, rfl⟩, by simp [hprim]⟩

/-- A spec is changed where the edit target keeps it, if the layer of the target exists. -/
theorem run_change_spec_eq_ok {path : PrimPath} {specifier : Specifier}
    {change : PrimSpec → PrimSpec} :
    (changeSpec path specifier change).run stage = .ok () after ↔
      stage.target.layer < stage.layers.length ∧
        stage.changed stage.target.layer (stage.target.specPath path) specifier change = after := by
  rw [changeSpec, run_bind_eq_ok]
  simp only [run_get_eq_ok]
  constructor
  · rintro ⟨_, _, ⟨rfl, rfl⟩, h⟩
    split at h
    · next hlt =>
        refine ⟨hlt, ?_⟩
        simpa [Stage.changed] using h
    · exact absurd h run_throw_ne_ok
  · rintro ⟨hlt, rfl⟩
    refine ⟨stage, stage, ⟨rfl, rfl⟩, ?_⟩
    rw [if_pos hlt]
    rfl

/-- A target is set if its layer exists. -/
theorem run_set_target_eq_ok {target : EditTarget} {result : Unit} :
    (setTarget target).run stage = .ok result after ↔
      target.layer < stage.layers.length ∧ { stage with target } = after := by
  rw [setTarget, run_bind_eq_ok]
  simp only [run_get_eq_ok]
  constructor
  · rintro ⟨_, _, ⟨rfl, rfl⟩, h⟩
    split at h
    · next hlt => exact ⟨hlt, by simpa using h⟩
    · exact absurd h run_throw_ne_ok
  · rintro ⟨hlt, rfl⟩
    refine ⟨stage, stage, ⟨rfl, rfl⟩, ?_⟩
    rw [if_pos hlt]
    rfl

/-- A target whose layer does not exist is refused without a change. -/
theorem run_set_target_of_no_layer {target : EditTarget}
    (h : ¬ target.layer < stage.layers.length) :
    (setTarget target).run stage =
      .error (.layerOutOfBounds target.layer stage.layers.length) stage := by
  rw [setTarget, run_bind_of_ok (run_get_eq_ok.mpr ⟨rfl, rfl⟩), if_neg h]
  rfl

/-- A variant is required without a change. -/
theorem run_require_variant_eq_ok {path : PrimPath} {choice : VariantChoice} {result : Unit} :
    (requireVariant path choice).run stage = .ok result after ↔
      VariantSet.hasVariant stage path choice = true ∧ stage = after := by
  have hset : ∀ {composed : ComposedVariantSet} {after : Stage},
      (requireVariantSet path choice.set).run stage = .ok composed after ↔
        VariantSet.find? stage path choice.set = some composed ∧ stage = after := by
    intro composed after
    rw [requireVariantSet, run_bind_eq_ok, VariantSet.find?, Option.bind_eq_bind,
      Option.bind_eq_some_iff]
    simp only [run_require_prim_eq_ok]
    constructor
    · rintro ⟨prim, _, ⟨hprim, rfl⟩, h⟩
      cases hfound : prim.variantSet? choice.set with
      | none =>
          simp only [hfound] at h
          exact absurd h run_throw_ne_ok
      | some found =>
          simp only [hfound, run_pure_eq_ok] at h
          exact ⟨⟨prim, hprim, hfound.trans (congrArg some h.1)⟩, h.2⟩
    · rintro ⟨⟨prim, hprim, hfound⟩, rfl⟩
      refine ⟨prim, stage, ⟨hprim, rfl⟩, ?_⟩
      simp [hfound]
  rw [requireVariant, run_bind_eq_ok, VariantSet.hasVariant, Option.any_eq_true]
  simp only [hset]
  constructor
  · rintro ⟨composed, _, ⟨hcomposed, rfl⟩, h⟩
    cases hvariant : composed.hasVariant choice.variant with
    | false =>
        simp only [hvariant] at h
        exact absurd h run_throw_ne_ok
    | true => exact ⟨⟨composed, hcomposed, hvariant⟩, by simpa [hvariant] using h⟩
  · rintro ⟨⟨composed, hcomposed, hvariant⟩, rfl⟩
    refine ⟨composed, stage, ⟨hcomposed, rfl⟩, ?_⟩
    simp [hvariant]

/-- A declared variant is selected in the spec that the edit target names. -/
theorem run_select_variant_eq_ok {path : PrimPath} {choice : VariantChoice} :
    (selectVariant path choice).run stage = .ok () after ↔
      VariantSet.hasVariant stage path choice = true ∧
        stage.target.layer < stage.layers.length ∧
        stage.changed stage.target.layer (stage.target.specPath path) .override
          (fun spec => { spec with
            variantSelection := spec.variantSelection.insert choice.set choice.variant }) =
          after := by
  rw [selectVariant, run_bind_eq_ok]
  simp only [run_require_variant_eq_ok]
  constructor
  · rintro ⟨_, _, ⟨hvariant, rfl⟩, h⟩
    exact ⟨hvariant, run_change_spec_eq_ok.mp h⟩
  · rintro ⟨hvariant, h⟩
    exact ⟨(), stage, ⟨hvariant, rfl⟩, run_change_spec_eq_ok.mpr h⟩

/-- A required name is one of a prim. -/
theorem run_require_name_eq_ok {name : String} {result : Unit} :
    (requireName name).run stage = .ok result after ↔ isPrimName name = true ∧ stage = after := by
  rw [requireName, run_bind_eq_ok]
  simp only [run_check_eq_ok, run_pure_eq_ok, PrimPath.child]
  constructor
  · rintro ⟨_, _, ⟨hname, rfl⟩, -, rfl⟩
    split at hname
    next hproper => exact ⟨hproper, rfl⟩
    next => cases hname
  · rintro ⟨hname, rfl⟩
    exact ⟨_, stage, ⟨if_pos hname, rfl⟩, trivial, rfl⟩

/-- A variant that is added is declared in the spec that the edit target names. -/
theorem run_add_variant_eq_ok {path : PrimPath} {choice : VariantChoice} :
    (addVariant path choice).run stage = .ok () after ↔
      isPrimName choice.set = true ∧ isPrimName choice.variant = true ∧
        stage.hasPrim path = true ∧ stage.target.layer < stage.layers.length ∧
        stage.changed stage.target.layer (stage.target.specPath path) .override
          (fun spec => spec.addVariants choice.set [choice.variant]) = after := by
  simp only [addVariant, run_bind_eq_ok, run_require_name_eq_ok, run_require_prim_eq_ok]
  constructor
  · rintro ⟨_, _, ⟨hset, rfl⟩, _, _, ⟨hvariant, rfl⟩, _, _, ⟨hprim, rfl⟩, h⟩
    exact ⟨hset, hvariant, Option.isSome_of_eq_some hprim, run_change_spec_eq_ok.mp h⟩
  · rintro ⟨hset, hvariant, hprim, h⟩
    obtain ⟨prim, hcomposed⟩ := Option.isSome_iff_exists.mp hprim
    exact ⟨(), stage, ⟨hset, rfl⟩, (), stage, ⟨hvariant, rfl⟩, prim, stage, ⟨hcomposed, rfl⟩,
      run_change_spec_eq_ok.mpr h⟩

/-- A reference that is added stands in the spec that the edit target names. -/
theorem run_add_reference_eq_ok {path source : PrimPath} :
    (addReference path source).run stage = .ok () after ↔
      source.requireScenePath = .ok () ∧ stage.hasPrim path = true ∧
        stage.target.layer < stage.layers.length ∧
        stage.changed stage.target.layer (stage.target.specPath path) .override
          (fun spec => { spec with references := addNew spec.references source }) = after := by
  simp only [addReference, run_bind_eq_ok, run_check_eq_ok, run_require_prim_eq_ok]
  constructor
  · rintro ⟨_, _, ⟨hsource, rfl⟩, _, _, ⟨hprim, rfl⟩, h⟩
    exact ⟨hsource, Option.isSome_of_eq_some hprim, run_change_spec_eq_ok.mp h⟩
  · rintro ⟨hsource, hprim, h⟩
    obtain ⟨prim, hcomposed⟩ := Option.isSome_iff_exists.mp hprim
    exact ⟨(), stage, ⟨hsource, rfl⟩, prim, stage, ⟨hcomposed, rfl⟩, run_change_spec_eq_ok.mpr h⟩

end Edit

/-! ## Scopes -/

namespace EditScope

variable {scope : EditScope} {stage : Stage}

/-- A released scope is released again without effect. -/
theorem run_release_of_released (hreleased : scope.isActive = false) (stage : Stage) :
    scope.release.run stage = .ok (scope, .ok ()) stage := by
  rw [release, if_neg (Bool.eq_false_iff.mp hreleased)]
  rfl

/-- Releasing an active scope gives back a released one in any case, and sets the target that was
there before if its layer exists. -/
theorem run_release_of_active (hactive : scope.isActive = true) (stage : Stage) :
    scope.release.run stage =
      if scope.previous.layer < stage.layers.length then
        .ok ({ scope with state := .released }, .ok ()) { stage with target := scope.previous }
      else
        .ok ({ scope with state := .released },
          .error (.layerOutOfBounds scope.previous.layer stage.layers.length)) stage := by
  rw [release, if_pos hactive, EStateM.run_bind, Edit.run_observing]
  by_cases hlayer : scope.previous.layer < stage.layers.length
  · rw [Edit.run_set_target_eq_ok.mpr ⟨hlayer, rfl⟩, if_pos hlayer]
    rfl
  · rw [Edit.run_set_target_of_no_layer hlayer, if_neg hlayer]
    rfl

/-- What releasing gives back is released. -/
theorem is_active_of_run_release {closed : EditScope} {outcome : Except Error Unit} {later : Stage}
    (hrun : scope.release.run stage = .ok (closed, outcome) later) : closed.isActive = false := by
  by_cases hactive : scope.isActive = true
  · rw [run_release_of_active hactive] at hrun
    split at hrun <;> cases hrun <;> rfl
  · rw [Bool.not_eq_true] at hactive
    rw [run_release_of_released hactive] at hrun
    cases hrun
    exact hactive

/-- Letting go of a scope that is released already has no effect. -/
theorem run_drop_of_released (hreleased : scope.isActive = false) (stage : Stage) :
    scope.drop.run stage = .ok () stage :=
  Edit.run_bind_of_ok (run_release_of_released hreleased stage)

/-- Letting go of an active scope sets the target that was there before, if its layer exists. -/
theorem run_drop_of_active (hactive : scope.isActive = true)
    (hlayer : scope.previous.layer < stage.layers.length) :
    scope.drop.run stage = .ok () { stage with target := scope.previous } := by
  have hrelease := run_release_of_active hactive stage
  rw [if_pos hlayer] at hrelease
  exact Edit.run_bind_of_ok hrelease

/-- An active scope closes without an error exactly if the layer of the target before it exists. -/
theorem run_close_eq_ok (hactive : scope.isActive = true) {after : Stage} :
    scope.close.run stage = .ok () after ↔
      scope.previous.layer < stage.layers.length ∧
        { stage with target := scope.previous } = after := by
  have hrelease := run_release_of_active hactive stage
  have hdrop (later : Stage) : (drop { scope with state := .released }).run later =
      .ok () later := run_drop_of_released rfl later
  by_cases hlayer : scope.previous.layer < stage.layers.length
  · rw [if_pos hlayer] at hrelease
    rw [close, Edit.run_bind_of_ok hrelease, Edit.run_bind_of_ok (hdrop _)]
    simp [Edit.run_check_eq_ok, hlayer]
  · rw [if_neg hlayer] at hrelease
    rw [close, Edit.run_bind_of_ok hrelease, Edit.run_bind_of_ok (hdrop _)]
    simp [Edit.run_check_eq_ok, hlayer]

end EditScope

namespace Edit

variable {α : Type} {stage after : Stage}

/-- A scope that stays in the layer of the target runs its program with the target redirected, and
gives the target back. -/
theorem run_of_run_during {path : PrimPath} {choice : VariantChoice} {program : Edit α}
    {result : α} (h : (EditScope.during path choice none program).run stage = .ok result after) :
    ∃ between : Stage,
      program.run { stage with target := stage.target.redirect path choice } =
        .ok result between ∧ { between with target := stage.target } = after := by
  rw [EditScope.during, run_bind_eq_ok] at h
  obtain ⟨scope, entered, henter, h⟩ := h
  rw [EditScope.enter, run_bind_eq_ok] at henter
  simp only [run_require_variant_eq_ok] at henter
  obtain ⟨_, _, ⟨-, rfl⟩, henter⟩ := henter
  rw [run_bind_eq_ok] at henter
  simp only [run_get_eq_ok] at henter
  obtain ⟨_, _, ⟨rfl, rfl⟩, henter⟩ := henter
  rw [run_bind_eq_ok] at henter
  simp only [run_set_target_eq_ok, run_pure_eq_ok] at henter
  obtain ⟨_, _, ⟨-, rfl⟩, rfl, rfl⟩ := henter
  -- The program has run inside; what is left is to give the target back.
  rw [run_bind_eq_ok] at h
  simp only [run_rethrow_eq_ok] at h
  obtain ⟨value, between, hprogram, h⟩ := h
  rw [EditScope.edit, run_bind_eq_ok] at hprogram
  simp only [run_check_eq_ok] at hprogram
  obtain ⟨_, _, ⟨-, rfl⟩, hprogram⟩ := hprogram
  rw [run_bind_eq_ok] at h
  obtain ⟨_, _, hclose, h⟩ := h
  obtain ⟨rfl, rfl⟩ := run_pure_eq_ok.mp h
  exact ⟨between, hprogram, ((EditScope.run_close_eq_ok rfl).mp hclose).2⟩

end Edit

end LayeredShading
