import LayeredShading.Proofs.Composition.Extension
import LayeredShading.Proofs.Network.EditScope
import LayeredShading.Proofs.SceneFile.Loading

/-!
# Operations that fail have no effect

All checks of an operation stand before its first write, and a write cannot fail as long as the edit
target has a layer, which it has on every stage that can be reached (`Stage.Reached.has_layer`). So
an operation that fails has changed nothing (`Operation.atomic`). One that succeeds has changed no
spec but that of its prim and, when it defines a prim, those of prims above it that did not compose
before it (`Operation.framed`): a definition extends the stack, so what composes does so until its
end. `Stage.operations_atomic_and_framed` puts both together.
-/

namespace LayeredShading

/-- The error does not say that there is no layer of an index. -/
def Error.FindsLayer (error : Error) : Prop := ∀ index count, error ≠ .layerOutOfBounds index count

/-! ## Programs without an effect if they fail -/

namespace Edit

variable {α β : Type}

/-- A program that only checks: it changes nothing, whether or not it fails, and does not fail for
want of a layer. -/
def Checks (program : Edit α) : Prop :=
  ∀ stage, (∃ value, program.run stage = .ok value stage) ∨
    ∃ error : Error, program.run stage = .error error stage ∧ error.FindsLayer

/-- A program that changes nothing if it fails and does not fail for want of a layer, as long as the
target has one. -/
def Atomic (program : Edit α) : Prop :=
  ∀ stage : Stage, stage.HasLayer stage.target → ∀ error later,
    program.run stage = .error error later → later = stage ∧ error.FindsLayer

/-- A program that does not fail, and leaves the target with a layer, as long as it has one. -/
def Succeeds (program : Edit α) : Prop :=
  ∀ stage : Stage, stage.HasLayer stage.target →
    ∃ value later, program.run stage = .ok value later ∧ later.HasLayer later.target

theorem checks_pure (value : α) : Checks (pure value) := fun _ => .inl ⟨value, rfl⟩

theorem checks_throw {error : Error} (h : error.FindsLayer) : Checks (throw error : Edit α) :=
  fun _ => .inr ⟨error, rfl, h⟩

theorem checks_get : Checks (get : Edit Stage) := fun stage => .inl ⟨stage, rfl⟩

/-- A result is checked without a change. -/
theorem checks_check {checked : Except Error α}
    (h : ∀ error, checked = .error error → error.FindsLayer) : Checks (check checked) := by
  cases checked with
  | ok value => exact checks_pure value
  | error error => exact checks_throw (h error rfl)

theorem Checks.bind {program : Edit α} {next : α → Edit β} (h : Checks program)
    (hnext : ∀ value, Checks (next value)) : Checks (program >>= next) := by
  intro stage
  rcases h stage with ⟨value, hrun⟩ | ⟨error, hrun, herror⟩
  · simpa only [EStateM.run_bind, hrun] using hnext value stage
  · exact .inr ⟨error, by rw [EStateM.run_bind, hrun], herror⟩

theorem Checks.forM {list : List α} {body : α → Edit PUnit} (h : ∀ element, Checks (body element)) :
    Checks (list.forM body) := by
  induction list with
  | nil => exact checks_pure _
  | cons head rest ih => exact (h head).bind fun _ => ih

/-- Checks may stand before what is atomic. -/
theorem Checks.bind_atomic {program : Edit α} {next : α → Edit β} (h : Checks program)
    (hnext : ∀ value, Atomic (next value)) : Atomic (program >>= next) := by
  intro stage hlayer error later herror
  rw [EStateM.run_bind] at herror
  rcases h stage with ⟨value, hrun⟩ | ⟨_, hrun, hfinds⟩
  · rw [hrun] at herror
    exact hnext value stage hlayer error later herror
  · rw [hrun] at herror
    cases herror
    exact ⟨rfl, hfinds⟩

/-- What does not fail has nothing to take back. -/
theorem Succeeds.atomic {program : Edit α} (h : Succeeds program) : Atomic program := by
  intro stage hlayer error later herror
  obtain ⟨value, between, hrun, -⟩ := h stage hlayer
  rw [hrun] at herror
  cases herror

theorem Succeeds.bind {program : Edit α} {next : α → Edit β} (h : Succeeds program)
    (hnext : ∀ value, Succeeds (next value)) : Succeeds (program >>= next) := by
  intro stage hlayer
  obtain ⟨value, between, hrun, hbetween⟩ := h stage hlayer
  simpa only [EStateM.run_bind, hrun] using hnext value between hbetween

/-- A loop does not fail if none of its rounds does. -/
theorem Succeeds.forM {list : List α} {body : α → Edit PUnit}
    (h : ∀ element, Succeeds (body element)) : Succeeds (list.forM body) := by
  induction list with
  | nil => exact fun stage hlayer => ⟨⟨⟩, stage, rfl, hlayer⟩
  | cons head rest ih => exact (h head).bind fun _ => ih

/-! ### Parts of operations -/

/-- A spec is changed, or made, wherever the target has a layer. -/
theorem succeeds_change_spec (path : PrimPath) (specifier : Specifier)
    (change : PrimSpec → PrimSpec) : Succeeds (changeSpec path specifier change) := by
  intro stage hlayer
  exact ⟨(), _, run_change_spec_eq_ok.mpr ⟨hlayer, rfl⟩, hlayer.changed _ _ _ _⟩

theorem succeeds_change_own_spec (path : PrimPath) (change : PrimSpec → PrimSpec) :
    Succeeds (changeOwnSpec path change) := by
  intro stage hlayer
  refine ⟨(), stage.amended stage.target.layer (stage.target.specPath path) change, rfl, ?_⟩
  rw [Stage.HasLayer, Stage.target_amended, Stage.length_layers_amended]
  exact hlayer

theorem checks_require_scene_path (path : PrimPath) : Checks (check path.requireScenePath) := by
  refine checks_check fun error herror => ?_
  rw [PrimPath.requireScenePath] at herror
  split at herror <;> cases herror
  exact fun _ _ => Error.noConfusion

/-- A name is checked by itself, whatever the stage. -/
theorem checks_require_name (name : String) : Checks (requireName name) := by
  refine (checks_check fun error herror => ?_).bind fun _ => checks_pure _
  rw [PrimPath.child] at herror
  split at herror <;> cases herror
  exact fun _ _ => Error.noConfusion

theorem checks_require_prim (path : PrimPath) : Checks (requirePrim path) := by
  refine checks_get.bind fun stage => ?_
  split
  next => exact checks_pure _
  next => exact checks_throw nofun

theorem checks_require_attribute (path : PropertyPath) : Checks (requireAttribute path) := by
  refine (checks_require_prim path.prim).bind fun prim => ?_
  split
  next => exact checks_pure _
  next => exact checks_throw nofun

theorem checks_require_variant (path : PrimPath) (choice : VariantChoice) :
    Checks (requireVariant path choice) := by
  have hset : Checks (requireVariantSet path choice.set) := by
    refine (checks_require_prim path).bind fun prim => ?_
    split
    next => exact checks_pure _
    next => exact checks_throw nofun
  refine hset.bind fun composed => ?_
  split
  next => exact checks_throw nofun
  next => exact checks_pure _

end Edit

namespace Operation

open Edit

/-! ### Operations -/

theorem atomic_change_spec (path : PrimPath) (specifier : Specifier)
    (change : PrimSpec → PrimSpec) : Atomic (changeSpec path specifier change) :=
  (succeeds_change_spec path specifier change).atomic

/-- A change of a prim that has to exist. -/
theorem atomic_require_prim (path : PrimPath) (specifier : Specifier)
    (change : PrimSpec → PrimSpec) :
    Atomic (requirePrim path >>= fun _ => changeSpec path specifier change) :=
  (checks_require_prim path).bind_atomic fun _ => atomic_change_spec path specifier change

/-- A change that is refused on a condition. -/
theorem atomic_refuse {refused : Prop} [Decidable refused] {error : Error}
    (herror : error.FindsLayer) (path : PrimPath) (specifier : Specifier)
    (change : PrimSpec → PrimSpec) :
    Atomic (do
      if refused then throw error
      changeSpec path specifier change) := by
  split
  next => exact (checks_throw herror).bind_atomic fun _ => atomic_change_spec path specifier change
  next => exact atomic_change_spec path specifier change

/-- Only the path of a definition is checked; what it writes for its prim and those above cannot
fail. -/
theorem atomic_define_prim (path : PrimPath) (typeName : Option String) :
    Atomic (definePrim path typeName).run := by
  refine (checks_require_scene_path path).bind_atomic fun _ => Succeeds.atomic ?_
  refine Succeeds.bind (.forM fun above => ?_) fun _ => succeeds_change_spec _ _ _
  -- A round of the loop writes or does nothing, and cannot fail either way.
  intro stage hlayer
  rw [EStateM.run_bind]
  show ∃ value later, (if (!stage.hasPrim above) = true then changeSpec above .define id
    else pure ()).run stage = .ok value later ∧ later.HasLayer later.target
  split
  next => exact succeeds_change_spec above .define id stage hlayer
  next => exact ⟨(), stage, rfl, hlayer⟩

/-- A declaration is compared with the composed one before it is written. -/
theorem atomic_create_attribute (path : PropertyPath) (type : ValueType) (custom : Bool) :
    Atomic (createAttribute path type custom).run := by
  refine (checks_require_prim path.prim).bind_atomic fun prim => ?_
  split
  next => exact atomic_refuse (by nofun) _ _ _
  next => exact atomic_change_spec _ _ _

/-- The sources are checked before the connections are written. -/
theorem atomic_set_connections (path : PropertyPath) (sources : List PropertyPath) :
    Atomic (setConnections path sources).run := by
  refine (checks_require_attribute path).bind_atomic fun composed => ?_
  split
  next => exact (checks_throw (by nofun)).bind_atomic fun _ => atomic_change_spec _ _ _
  next => exact atomic_change_spec _ _ _

/-- Every operation checks before it writes. -/
theorem atomic (operation : Operation) : operation.run.Atomic := by
  cases operation with
  | definePrim path typeName => exact atomic_define_prim path typeName
  | overridePrim path =>
      exact (checks_require_scene_path path).bind_atomic fun _ => atomic_require_prim _ _ _
  | createAttribute path type custom => exact atomic_create_attribute path type custom
  | setDefault path value =>
      exact (checks_require_attribute path).bind_atomic fun _ => atomic_refuse (by nofun) _ _ _
  | setConnections path sources => exact atomic_set_connections path sources
  | addConnection path source =>
      exact (checks_require_attribute path).bind_atomic fun _ => atomic_refuse (by nofun) _ _ _
  | addReference path source =>
      exact (checks_require_scene_path source).bind_atomic fun _ => atomic_require_prim _ _ _
  | setSpecializes path sources =>
      exact (Checks.forM checks_require_scene_path).bind_atomic fun _ => atomic_require_prim _ _ _
  | addVariantSet path set =>
      exact (checks_require_name set).bind_atomic fun _ => atomic_require_prim _ _ _
  | addVariant path choice =>
      exact (checks_require_name choice.set).bind_atomic fun _ =>
        (checks_require_name choice.variant).bind_atomic fun _ => atomic_require_prim _ _ _
  | selectVariant path choice =>
      exact (checks_require_variant path choice).bind_atomic fun _ => atomic_change_spec _ _ _
  | clearDefault | clearConnections | clearSpecializes | clearSelection =>
      exact (succeeds_change_own_spec _ _).atomic

end Operation

/-! ## Where an operation writes -/

namespace Operation

variable {operation : Operation} {stage later : Stage}

/-- The paths in the target's layer where an operation may write: that of its prim and, if it
defines the prim, those of the prims above it that do not compose. -/
def Touches (operation : Operation) (stage : Stage) (site : PrimPath) : Prop :=
  site = stage.target.specPath operation.prim ∨
    ∃ typeName, operation = .definePrim operation.prim typeName ∧
      ∃ above ∈ operation.prim.ancestry.dropLast, stage.hasPrim above = false ∧
        site = stage.target.specPath above

/-- Everything is as before but the specs that an operation may write. -/
structure Framed (operation : Operation) (stage later : Stage) : Prop where
  target_eq : later.target = stage.target
  identifiers_eq : later.layerIdentifiers = stage.layerIdentifiers
  layer_eq : ∀ place ≠ stage.target.layer, later.layers[place]? = stage.layers[place]?
  spec_eq : ∀ place site, ¬ operation.Touches stage site →
    later.spec? place site = stage.spec? place site

/-- Only a definition makes specs of other prims. -/
theorem Makes.path_eq_or_defines {path : PrimPath} {specifier : Specifier}
    {change : PrimSpec → PrimSpec} (h : operation.Makes stage path specifier change) :
    path = operation.prim ∨ ∃ typeName, operation = .definePrim operation.prim typeName ∧
      path ∈ operation.prim.ancestry.dropLast ∧ stage.hasPrim path = false := by
  cases h with
  | defineAbove _ habove hprim => exact .inr ⟨_, rfl, habove, hprim⟩
  | _ => exact .inl rfl

/-- A definition extends the stack. -/
theorem Writes.extended {path : PrimPath} {typeName : Option String}
    (h : (definePrim path typeName).Writes stage later) :
    Opinion.Extended stage.layers later.layers := by
  cases h with
  | made hmakes hlayer =>
      cases hmakes <;>
        exact .of_changed_eq (fun _ => rfl) (fun _ => rfl) (fun _ => rfl) fun _ => rfl
  | amended hamends => cases hamends

/-- A write changes no other layer. -/
theorem Writes.layer_eq (h : operation.Writes stage later) {place : Nat}
    (hplace : place ≠ stage.target.layer) : later.layers[place]? = stage.layers[place]? := by
  cases h with
  | made => exact List.getElem?_modify_ne _ _ (Ne.symm hplace)
  | amended => exact List.getElem?_modify_ne _ _ (Ne.symm hplace)

/-- A write is where the operation may write. -/
theorem Writes.spec_eq_of_not_touches (h : operation.Writes stage later) {place : Nat}
    {site : PrimPath} (hsite : ¬ operation.Touches stage site) :
    later.spec? place site = stage.spec? place site := by
  rcases h.spec_cases place site with hsame | ⟨path, _, _, hmakes, ⟨-, rfl⟩, -⟩ |
    ⟨path, _, hamends, ⟨-, rfl⟩, -⟩
  · exact hsame
  · rcases hmakes.path_eq_or_defines with rfl | ⟨typeName, hdefines, habove, hprim⟩
    · exact absurd (.inl rfl) hsite
    · exact absurd (.inr ⟨typeName, hdefines, path, habove, hprim, rfl⟩) hsite
  · obtain rfl := hamends.path_eq
    exact absurd (.inl rfl) hsite

/-- Whether or not it fails, an operation writes only where it may. -/
theorem framed (operation : Operation) (stage : Stage) :
    operation.Framed stage (stage.after operation.run) := by
  -- A definition goes on to write only above prims that have not composed from the start.
  let reached (later : Stage) : Prop := operation.Framed stage later ∧
    ∀ path typeName, operation = .definePrim path typeName →
      ∀ above, stage.hasPrim above = true → later.hasPrim above = true
  refine (Operation.after_of_writes reached ?_ ?_).1
  · exact ⟨⟨rfl, rfl, fun _ _ => rfl, fun _ _ _ => rfl⟩, fun _ _ _ _ => id⟩
  rintro between later ⟨hframed, hprims⟩ hwrite
  refine ⟨⟨?_, ?_, fun place hplace => ?_, fun place site hsite => ?_⟩, ?_⟩
  · exact hwrite.target_eq.trans hframed.target_eq
  · exact hwrite.identifiers_eq.trans hframed.identifiers_eq
  · rw [hwrite.layer_eq (hframed.target_eq ▸ hplace), hframed.layer_eq place hplace]
  · rw [hwrite.spec_eq_of_not_touches, hframed.spec_eq place site hsite]
    rw [Touches, hframed.target_eq]
    rintro (hsame | ⟨typeName, hdefines, above, habove, hprim, hsame⟩)
    · exact hsite (.inl hsame)
    · refine hsite (.inr ⟨typeName, hdefines, above, habove, ?_, hsame⟩)
      by_contra hcomposed
      rw [Bool.not_eq_false] at hcomposed
      rw [hprims _ _ hdefines above hcomposed] at hprim
      cases hprim
  · rintro path typeName rfl above hprim
    exact hwrite.extended.compose_is_some (hprims _ _ rfl above hprim)

/-- An operation leaves the target with a layer. -/
theorem has_layer_after (operation : Operation) (h : stage.HasLayer stage.target) :
    (stage.after operation.run).HasLayer (stage.after operation.run).target := by
  have hframed := operation.framed stage
  have hlength : (stage.after operation.run).layers.length = stage.layers.length := by
    simpa [Stage.layerIdentifiers] using congrArg List.length hframed.identifiers_eq
  rw [Stage.HasLayer, hframed.target_eq, hlength]
  exact h

end Operation

/-! ## Stages that can be reached -/

/-- What changes a stage: an operation, a new sublayer or a change of the target. -/
inductive Action where
  | author (operation : Operation)
  | addSublayer (identifier : String)
  | setTarget (target : EditTarget)
  deriving DecidableEq

/-- The program of an action. -/
def Action.run : Action → Edit Unit
  | author operation => operation.run
  | addSublayer identifier => do let _ ← Edit.addSublayer identifier
  | setTarget target => Edit.setTarget target

namespace Stage

variable {stage : Stage}

/-- A stage that is made of layers or of a description and then changed by actions, whether or not
they fail. -/
inductive Reached : Stage → Prop where
  | ofLayers (layers : List Layer) : Reached (ofLayers layers)
  | loaded {description : SceneDescription} {stage : Stage} :
      ofDescription description = .ok stage → Reached stage
  | after {stage : Stage} (action : Action) : Reached stage → Reached (stage.after action.run)

/-- The target of a stage that can be reached has a layer. -/
theorem Reached.has_layer (h : stage.Reached) : stage.HasLayer stage.target := by
  induction h with
  | ofLayers layers => exact has_layer_of_layers layers
  | loaded h =>
      obtain ⟨layers, -, -, -, rfl⟩ := of_description_eq_ok_iff.mp h
      exact has_layer_of_layers layers
  | @after stage action _ ih =>
      cases action with
      | author operation => exact operation.has_layer_after ih
      | addSublayer identifier =>
          show stage.target.layer < (stage.layers ++ [Layer.blank identifier]).length
          rw [List.length_append]
          exact Nat.lt_add_right _ ih
      | setTarget target =>
          rw [Action.run, Edit.after_set_target]
          split
          next hlayer => exact hlayer
          next => exact ih

/-- Operations are atomic and framed. On every stage that is made of layers or loaded and then
changed by any actions, the target has a layer. An action that fails leaves the stage as it is, and
only a change of the target fails for want of a layer. An operation that succeeds leaves the target,
the identifiers of the layers and all layers but the target's as they are, and in that layer all
specs but the one that the target keeps for its prim and, if it defines the prim, those for the
prims above that did not compose before. -/
theorem operations_atomic_and_framed (h : stage.Reached) :
    stage.HasLayer stage.target ∧
      (∀ (action : Action) error later, action.run.run stage = .error error later →
        later = stage ∧ ∀ index count, error = .layerOutOfBounds index count →
          ∃ target, action = .setTarget target) ∧
      ∀ (operation : Operation) later, operation.run.run stage = .ok () later →
        operation.Framed stage later := by
  have hlayer := h.has_layer
  refine ⟨hlayer, fun action error later herror => ?_, fun operation later hrun => ?_⟩
  · cases action with
    | author operation =>
        obtain ⟨hsame, hfinds⟩ := operation.atomic stage hlayer error later herror
        exact ⟨hsame, fun index count hindex => absurd hindex (hfinds index count)⟩
    | addSublayer identifier => cases herror
    | setTarget target =>
        have hafter := Edit.after_of_error herror
        refine ⟨?_, fun _ _ _ => ⟨target, rfl⟩⟩
        rw [Action.run, Edit.after_set_target] at hafter
        split at hafter
        next hexists =>
          have hrun : (Edit.setTarget target).run stage = .ok () _ :=
            Edit.run_set_target_eq_ok.mpr ⟨hexists, rfl⟩
          rw [Action.run, hrun] at herror
          cases herror
        next => exact hafter.symm
  · rw [← Edit.after_of_ok hrun]
    exact operation.framed stage

/-- A prim that declares a variant, and the target in that variant in a layer added below. -/
def lookInDetails : Stage :=
  ((ofLayers [⟨"root", .ofList [(⟨[.plain "M"]⟩,
    { PrimSpec.blank .define with variantSets := [⟨"look", ["x"]⟩] })]⟩]).after
      (Action.addSublayer "details").run).after
    (Action.setTarget ((EditTarget.ofLayer 1).redirect ⟨[.plain "M"]⟩ ⟨"look", "x"⟩)).run

/-- A part that is defined there may write its own spec and that of the prim above it, but not that
of the prim which composes. A variant of a missing prim is refused without a change, and a target
without a layer is too. -/
theorem definition_in_look_framed :
    let bolt : PrimPath := ⟨[.plain "M", .plain "parts", .plain "bolt"]⟩
    let define : Operation := .definePrim bolt (some "Mesh")
    lookInDetails.Reached ∧ lookInDetails.target.layer = 1 ∧
      define.Framed lookInDetails (lookInDetails.after define.run) ∧
      (∀ place, (lookInDetails.after define.run).spec? place ⟨[⟨"M", [⟨"look", "x"⟩]⟩]⟩ =
        lookInDetails.spec? place ⟨[⟨"M", [⟨"look", "x"⟩]⟩]⟩) ∧
      lookInDetails.after (Action.author (.addVariant bolt ⟨"look", "y"⟩)).run = lookInDetails ∧
      (Action.setTarget (.ofLayer 2)).run.run lookInDetails =
        .error (.layerOutOfBounds 2 2) lookInDetails := by
  intro bolt define
  have hreached : lookInDetails.Reached := .after _ (.after _ (.ofLayers _))
  obtain ⟨-, hatomic, hframed⟩ := operations_atomic_and_framed hreached
  have hdefine : define.run.run lookInDetails = .ok () (lookInDetails.after define.run) :=
    Edit.run_eq_ok_after (by decide)
  have hwritten := hframed define _ hdefine
  refine ⟨hreached, by decide, hwritten, fun place => hwritten.spec_eq place _ ?_, ?_, rfl⟩
  · rintro (hsame | ⟨_, -, above, habove, hprim, hsame⟩)
    · exact absurd hsame (by decide)
    · revert above
      decide
  · have hfails : ((Action.author (.addVariant bolt ⟨"look", "y"⟩)).run.run'
        lookInDetails).isSome = false := by decide
    delta EStateM.run' at hfails
    cases hrun : (Action.author (.addVariant bolt ⟨"look", "y"⟩)).run.run lookInDetails with
    | ok value later => simp [hrun] at hfails
    | error error later =>
        rw [Edit.after_of_error hrun]
        exact (hatomic _ error later hrun).1

end Stage

end LayeredShading
