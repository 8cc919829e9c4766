import LayeredShading.Proofs.Stage.Authored

/-!
# Sessions with edit scopes

A session authors a stage and opens scopes, which it closes last opened first. Nothing that is
authored removes a layer (`Stage.Grows`), so every target that was in force once can be set again.
Every step of a session keeps (`Session.Sound.step`) that the open scopes remember the target that
was in force before them, whose layer exists, and that a scope is no longer active once its release
has given it back. `Session.scopes_restore_target` draws from it that closing restores that target,
and that a scope which was released has no effect any more, whatever has changed since.
-/

namespace LayeredShading

/-! ## Layers are not removed -/

namespace Stage

/-- The layer of a target exists. -/
def HasLayer (stage : Stage) (target : EditTarget) : Prop := target.layer < stage.layers.length

/-- No layer is removed, and if the target of the first stage has a layer so does the other's. -/
structure Grows (stage later : Stage) : Prop where
  length_le : stage.layers.length ≤ later.layers.length
  has_layer : stage.HasLayer stage.target → later.HasLayer later.target

theorem Grows.refl (stage : Stage) : Grows stage stage := ⟨Nat.le_refl _, id⟩

theorem Grows.trans {first second third : Stage} (h : Grows first second)
    (hnext : Grows second third) : Grows first third :=
  ⟨Nat.le_trans h.length_le hnext.length_le, hnext.has_layer ∘ h.has_layer⟩

theorem HasLayer.mono {stage later : Stage} {target : EditTarget} (h : stage.HasLayer target)
    (hgrows : Grows stage later) : later.HasLayer target :=
  Nat.lt_of_lt_of_le h hgrows.length_le

/-- A change of a spec removes no layer. -/
theorem HasLayer.changed {stage : Stage} {target : EditTarget} (h : stage.HasLayer target)
    (place : Nat) (site : PrimPath) (specifier : Specifier) (change : PrimSpec → PrimSpec) :
    (stage.changed place site specifier change).HasLayer target := by
  rw [HasLayer, length_layers_changed]
  exact h

/-- The target of a stage made of layers has one. -/
theorem has_layer_of_layers (layers : List Layer) :
    (ofLayers layers).HasLayer (ofLayers layers).target := by
  cases layers with
  | nil => exact Nat.one_pos
  | cons layer rest => exact Nat.succ_pos _

/-- A program that authors removes no layer. -/
theorem grows_after {α : Type} {program : Edit α} (h : program.Authored) (stage : Stage) :
    Grows stage (stage.after program) := by
  refine h.related Grows.refl (fun _ _ _ => Grows.trans) ?_ ?_ ?_ stage
  · intro operation stage later _ hwrites
    have hlength := hwrites.length_layers_eq
    refine ⟨Nat.le_of_eq hlength.symm, fun hlayer => ?_⟩
    rw [HasLayer, hwrites.target_eq, hlength]
    exact hlayer
  · intro stage identifier
    have hlength : (stage.after (Edit.addSublayer identifier)).layers.length =
        stage.layers.length + 1 := List.length_append
    exact ⟨by omega, fun hlayer => Nat.lt_of_lt_of_le hlayer (by omega)⟩
  · intro stage target
    rw [Edit.after_set_target]
    split
    next hlayer => exact ⟨Nat.le_refl _, fun _ => hlayer⟩
    next => exact .refl stage

end Stage

/-! ## Opening and closing -/

/-- A way to open a scope. -/
inductive Opening where
  | enter (prim : PrimPath) (choice : VariantChoice) (layer : Option Nat)
  | enterSelected (material : PrimPath) (set : String) (layer : Option Nat)
  | enterVariant (material : PrimPath) (variant : String) (layer : Option Nat)
  deriving DecidableEq

/-- The program that opens a scope. -/
def Opening.run : Opening → Edit EditScope
  | enter prim choice layer => EditScope.enter prim choice layer
  | enterSelected material set layer => Material.enterSelected material set layer
  | enterVariant material variant layer => Material.enterVariant material variant layer

/-- However a scope is opened, nothing but operations and changes of the target is run. -/
theorem Opening.authored (opening : Opening) : opening.run.Authored := by
  cases opening with
  | enter prim choice layer => exact EditScope.authored_enter prim choice layer
  | enterSelected material set layer => exact Material.authored_enter_selected material set layer
  | enterVariant material variant layer =>
      exact Material.authored_enter_variant material variant layer

/-- What an attempt to open a scope comes to: an active scope that remembers a target, or an error
that leaves the target in force. -/
def Opens (target : EditTarget) : EStateM.Result Error Stage EditScope → Prop
  | .ok scope _ => scope.isActive = true ∧ scope.previous = target
  | .error _ later => later.target = target

/-- A program that leaves the target as it is. -/
def Edit.KeepsTarget {α : Type} (program : Edit α) : Prop :=
  ∀ stage : Stage, (stage.after program).target = stage.target

theorem Edit.ReadsOnly.keeps_target {α : Type} {program : Edit α} (h : program.ReadsOnly) :
    program.KeepsTarget := fun stage => by rw [h stage]

theorem Operation.keeps_target (operation : Operation) : operation.run.KeepsTarget := by
  intro stage
  exact Operation.after_of_writes (fun later => later.target = stage.target) rfl
    fun _ _ hbetween hwrite => hwrite.target_eq.trans hbetween

section Open

variable {stage : Stage}

/-- Opening a scope may begin with anything that leaves the target as it is. -/
theorem Opens.bind {α : Type} {program : Edit α} {next : α → Edit EditScope}
    (hkeeps : program.KeepsTarget)
    (hnext : ∀ value between, program.run stage = .ok value between →
      Opens between.target ((next value).run between)) :
    Opens stage.target ((program >>= next).run stage) := by
  have htarget := hkeeps stage
  rw [Stage.after] at htarget
  rw [EStateM.run_bind]
  cases hrun : program.run stage with
  | ok value between =>
      rw [hrun] at htarget
      rw [← htarget]
      exact hnext value between hrun
  | error error between =>
      rw [hrun] at htarget
      exact htarget

theorem opens_enter (stage : Stage) (prim : PrimPath) (choice : VariantChoice)
    (layer : Option Nat) : Opens stage.target ((EditScope.enter prim choice layer).run stage) := by
  refine .bind (Edit.reads_only_require_variant prim choice).keeps_target fun _ between _ => ?_
  refine .bind Edit.reads_only_get.keeps_target fun current later hget => ?_
  obtain ⟨rfl, rfl⟩ := Edit.run_get_eq_ok.mp hget
  rw [EStateM.run_bind]
  -- Only setting the target is left, and it fails without an effect.
  cases hset : (Edit.setTarget ((between.target.withLayer
      (layer.getD between.target.layer)).redirect prim choice)).run between with
  | ok result later => exact ⟨rfl, rfl⟩
  | error error later => exact congrArg Stage.target (Edit.later_eq_of_run_set_target hset)

/-- A scope is opened for a declared variant in a layer that exists. -/
theorem EditScope.run_enter (stage : Stage) (prim : PrimPath) (choice : VariantChoice)
    (layer : Option Nat) (hvariant : VariantSet.hasVariant stage prim choice = true)
    (hlayer : layer.getD stage.target.layer < stage.layers.length) :
    let target := (stage.target.withLayer (layer.getD stage.target.layer)).redirect prim choice
    (enter prim choice layer).run stage =
      .ok ⟨prim, choice, target, stage.target, .active⟩ { stage with target } := by
  have hrequired : (Edit.requireVariant prim choice).run stage = .ok () stage :=
    Edit.run_require_variant_eq_ok.mpr ⟨hvariant, rfl⟩
  have hset : (Edit.setTarget ((stage.target.withLayer
      (layer.getD stage.target.layer)).redirect prim choice)).run stage = .ok () _ :=
    Edit.run_set_target_eq_ok.mpr ⟨hlayer, rfl⟩
  refine Edit.run_bind_eq_ok.mpr ⟨(), stage, hrequired, ?_⟩
  refine Edit.run_bind_eq_ok.mpr ⟨stage, stage, rfl, ?_⟩
  exact Edit.run_bind_eq_ok.mpr ⟨(), _, hset, rfl⟩

/-- Every way to open a scope gives an active scope that remembers the target, or fails and leaves
the target as it is. -/
theorem opens_run (opening : Opening) (stage : Stage) :
    Opens stage.target (opening.run.run stage) := by
  cases opening with
  | enter prim choice layer => exact opens_enter stage prim choice layer
  | enterSelected material set layer =>
      refine .bind Edit.reads_only_get.keeps_target fun current between _ => ?_
      split
      next => rfl
      next =>
        split
        next => rfl
        next => exact opens_enter between _ _ _
  | enterVariant material variant layer =>
      let choice : VariantChoice := ⟨Material.variantSet, variant⟩
      refine .bind (Operation.keeps_target (.addVariant material choice)) fun _ added _ => ?_
      have hselect : (VariantSet.select material choice).KeepsTarget := by
        intro between
        refine Edit.reads_only_get.after_bind_of (fun later => later.target = between.target) rfl
          fun current _ => ?_
        split
        next => rfl
        next => exact Operation.keeps_target (.selectVariant material choice) between
      exact .bind hselect fun _ between _ => opens_enter between _ _ _

end Open

/-! ## Released scopes -/

namespace EditScope

/-- A scope that is not active is refused whatever it is used for. -/
theorem require_active_of_released {scope : EditScope} (hreleased : scope.isActive = false) :
    scope.requireActive = .error (.staleEditScope scope.text) := by
  rw [requireActive, if_neg (Bool.eq_false_iff.mp hreleased)]

theorem material_of_released {scope : EditScope} (hreleased : scope.isActive = false)
    (stage : Stage) : scope.material stage = .error (.staleEditScope scope.text) := by
  rw [material, require_active_of_released hreleased]
  rfl

theorem active_target_of_released {scope : EditScope} (hreleased : scope.isActive = false) :
    scope.activeTarget = .error (.staleEditScope scope.text) := by
  rw [activeTarget, require_active_of_released hreleased]
  rfl

/-- What is to be edited within a released scope is not run. -/
theorem run_edit_of_released {α : Type} {scope : EditScope} (hreleased : scope.isActive = false)
    (program : Edit α) (stage : Stage) :
    (scope.edit program).run stage = .error (.staleEditScope scope.text) stage := by
  rw [edit, require_active_of_released hreleased]
  rfl

end EditScope

/-! ## Sessions -/

/-- A scope that is open, with the target that was in force when it was opened. -/
structure OpenScope where
  scope : EditScope
  before : EditTarget

/-- A stage that is authored, the scopes that are open, the innermost first, and those that have
been released and are still at hand. -/
structure Session where
  stage : Stage
  scopes : List OpenScope
  released : List EditScope

namespace Session

/-- A session before its first step. -/
def start (stage : Stage) : Session := ⟨stage, [], []⟩

/-- A step of a session: something is authored, with or without success, a scope is opened or
refused, the innermost open scope is released and kept, or let go of, and the same again with a
scope that has been released. -/
inductive Step : Session → Session → Prop where
  | author {session : Session} {α : Type} {program : Edit α} : program.Authored →
      Step session { session with stage := session.stage.after program }
  | opened {session : Session} (opening : Opening) {scope : EditScope} {later : Stage} :
      opening.run.run session.stage = .ok scope later →
      Step session { session with
        stage := later, scopes := ⟨scope, session.stage.target⟩ :: session.scopes }
  | refused {session : Session} (opening : Opening) {error : Error} {later : Stage} :
      opening.run.run session.stage = .error error later →
      Step session { session with stage := later }
  | released {stage later : Stage} {innermost : OpenScope} {outer : List OpenScope}
      {released : List EditScope} {closed : EditScope} {outcome : Except Error Unit} :
      innermost.scope.release.run stage = .ok (closed, outcome) later →
      Step ⟨stage, innermost :: outer, released⟩ ⟨later, outer, closed :: released⟩
  | dropped {stage : Stage} {innermost : OpenScope} {outer : List OpenScope}
      {released : List EditScope} :
      Step ⟨stage, innermost :: outer, released⟩
        ⟨stage.after innermost.scope.drop, outer, released⟩
  | releasedAgain {stage later : Stage} {scopes : List OpenScope} {before after : List EditScope}
      {scope closed : EditScope} {outcome : Except Error Unit} :
      scope.release.run stage = .ok (closed, outcome) later →
      Step ⟨stage, scopes, before ++ scope :: after⟩ ⟨later, scopes, before ++ closed :: after⟩
  | droppedAgain {stage : Stage} {scopes : List OpenScope} {before after : List EditScope}
      {scope : EditScope} :
      Step ⟨stage, scopes, before ++ scope :: after⟩
        ⟨stage.after scope.drop, scopes, before ++ after⟩

/-- The target that is in force has a layer. All open scopes are active and remember the target that
was in force before them, which has one, too; and no scope that has been released is active. -/
structure Sound (session : Session) : Prop where
  has_layer : session.stage.HasLayer session.stage.target
  remembered : ∀ open_ ∈ session.scopes, open_.scope.isActive = true ∧
    open_.scope.previous = open_.before ∧ session.stage.HasLayer open_.before
  stale : ∀ scope ∈ session.released, scope.isActive = false

/-- A session stays sound when no layer is removed. -/
theorem Sound.of_grows {session : Session} (h : session.Sound) {later : Stage}
    (hgrows : Stage.Grows session.stage later) : Sound { session with stage := later } where
  has_layer := hgrows.has_layer h.has_layer
  remembered open_ hmem := by
    obtain ⟨hactive, hprevious, hlayer⟩ := h.remembered open_ hmem
    exact ⟨hactive, hprevious, hlayer.mono hgrows⟩
  stale := h.stale

section Closing

variable {stage : Stage} {innermost : OpenScope} {outer : List OpenScope}
  {released : List EditScope}

/-- In a sound session releasing the innermost scope gives back the target that was in force before
it, and the scope as a released one. -/
theorem Sound.run_release (h : Sound ⟨stage, innermost :: outer, released⟩) :
    innermost.scope.release.run stage =
      .ok ({ innermost.scope with state := .released }, .ok ())
        { stage with target := innermost.before } := by
  obtain ⟨hactive, hprevious, hlayer⟩ := h.remembered innermost List.mem_cons_self
  have hprevious_layer : innermost.scope.previous.layer < stage.layers.length :=
    hprevious ▸ hlayer
  rw [EditScope.run_release_of_active hactive, if_pos hprevious_layer, ← hprevious]

/-- In a sound session letting go of the innermost scope gives back the target that was in force
before it. -/
theorem Sound.run_drop (h : Sound ⟨stage, innermost :: outer, released⟩) :
    innermost.scope.drop.run stage = .ok () { stage with target := innermost.before } := by
  obtain ⟨hactive, hprevious, hlayer⟩ := h.remembered innermost List.mem_cons_self
  rw [EditScope.run_drop_of_active hactive (hprevious ▸ hlayer), hprevious]

/-- A session stays sound when the innermost scope is closed and its target given back. -/
theorem Sound.closed (h : Sound ⟨stage, innermost :: outer, released⟩) :
    Sound ⟨{ stage with target := innermost.before }, outer, released⟩ where
  has_layer := (h.remembered innermost List.mem_cons_self).2.2
  remembered open_ hmem := h.remembered open_ (List.mem_cons_of_mem _ hmem)
  stale := h.stale

end Closing

/-- Every step keeps a session sound. -/
theorem Sound.step {session next : Session} (h : session.Sound) (hstep : Step session next) :
    next.Sound := by
  cases hstep with
  | author hauthored => exact h.of_grows (Stage.grows_after hauthored session.stage)
  | @opened _ opening _ later hopen =>
      have hgrows := Stage.grows_after opening.authored session.stage
      rw [Edit.after_of_ok hopen] at hgrows
      have hsound := h.of_grows hgrows
      have hopens := opens_run opening session.stage
      rw [hopen] at hopens
      refine ⟨hsound.has_layer, fun open_ hmem => ?_, h.stale⟩
      rcases List.mem_cons.mp hmem with rfl | hmem
      · exact ⟨hopens.1, hopens.2, h.has_layer.mono hgrows⟩
      · exact hsound.remembered open_ hmem
  | @refused _ opening _ later hrefused =>
      have hgrows := Stage.grows_after opening.authored session.stage
      rw [Edit.after_of_error hrefused] at hgrows
      exact h.of_grows hgrows
  | released hrun =>
      have hclosed := EditScope.is_active_of_run_release hrun
      rw [h.run_release] at hrun
      cases hrun
      refine ⟨h.closed.has_layer, h.closed.remembered, fun scope hmem => ?_⟩
      rcases List.mem_cons.mp hmem with rfl | hmem
      · exact hclosed
      · exact h.stale scope hmem
  | dropped =>
      rw [Edit.after_of_ok h.run_drop]
      exact h.closed
  | @releasedAgain _ _ _ before after scope closed outcome hrun =>
      -- The scope is given back as it was, with no effect on the stage.
      have hstale := h.stale scope (List.mem_append_right _ List.mem_cons_self)
      rw [EditScope.run_release_of_released hstale] at hrun
      cases hrun
      exact h
  | @droppedAgain stage _ before after scope =>
      have hstale := h.stale scope (List.mem_append_right _ List.mem_cons_self)
      rw [Edit.after_of_ok (EditScope.run_drop_of_released hstale stage)]
      refine ⟨h.has_layer, h.remembered, fun other hmem => h.stale other ?_⟩
      exact List.mem_append.mpr ((List.mem_append.mp hmem).imp_right (List.mem_cons_of_mem _))

/-- A session that starts with a target whose layer exists stays sound. -/
theorem sound_of_run {stage : Stage} {session : Session} (hlayer : stage.HasLayer stage.target)
    (hrun : Relation.ReflTransGen Step (start stage) session) : session.Sound := by
  induction hrun with
  | refl => exact ⟨hlayer, nofun, nofun⟩
  | tail _ hstep ih => exact ih.step hstep

/-- Scopes give the target back once. In any session that starts with a target whose layer exists,
as it does on stages made of layers, in which scopes are closed last opened first and anything is
authored in between: releasing the innermost scope succeeds and gives the scope back as released,
letting go of it succeeds, too, and either leaves the target that was in force just before the scope
was opened; a scope that cannot be opened leaves the target as it is; and a scope that releasing has
given back, at whatever time before, can be released again and let go of without any effect, and
fails in every other use, which changes nothing. -/
theorem scopes_restore_target {stage : Stage} {session : Session}
    (hlayer : stage.HasLayer stage.target)
    (hrun : Relation.ReflTransGen Step (start stage) session) :
    (∀ innermost outer, session.scopes = innermost :: outer →
        innermost.scope.release.run session.stage =
            .ok ({ innermost.scope with state := .released }, .ok ())
              { session.stage with target := innermost.before } ∧
          innermost.scope.drop.run session.stage =
            .ok () { session.stage with target := innermost.before }) ∧
      (∀ (opening : Opening) error later, opening.run.run session.stage = .error error later →
        later.target = session.stage.target) ∧
      ∀ scope ∈ session.released,
        scope.release.run session.stage = .ok (scope, .ok ()) session.stage ∧
        scope.drop.run session.stage = .ok () session.stage ∧
        scope.material session.stage = .error (.staleEditScope scope.text) ∧
        scope.activeTarget = .error (.staleEditScope scope.text) ∧
        ∀ {α : Type} (program : Edit α), (scope.edit program).run session.stage =
          .error (.staleEditScope scope.text) session.stage := by
  have hsound := sound_of_run hlayer hrun
  refine ⟨?_, ?_, fun scope hmem => ?_⟩
  · rintro innermost outer hscopes
    obtain ⟨current, scopes, released⟩ := session
    obtain rfl : scopes = innermost :: outer := hscopes
    exact ⟨hsound.run_release, hsound.run_drop⟩
  · intro opening error later hrefused
    have hopens := opens_run opening session.stage
    rw [hrefused] at hopens
    exact hopens
  · have hstale := hsound.stale scope hmem
    exact ⟨EditScope.run_release_of_released hstale _, EditScope.run_drop_of_released hstale _,
      EditScope.material_of_released hstale _, EditScope.active_target_of_released hstale,
      fun program => EditScope.run_edit_of_released hstale program _⟩

/-- A stage with a prim that declares two variants, and a weaker layer. -/
def twoLooks : Stage :=
  .ofLayers [⟨"root", .ofList [(⟨[.plain "M"]⟩,
    { PrimSpec.blank .define with variantSets := [⟨"look", ["x", "y"]⟩] })]⟩, .blank "weak"]

/-- A scope in the weaker layer and one within it, inside of which the target is changed and a layer
is added. The inner one is released, and then the target is changed again: releasing the inner one a
second time does not touch that target, and closing the outer one gives the first target back. -/
theorem nested_scopes_restore_target :
    ∃ session : Session, Relation.ReflTransGen Step (start twoLooks) session ∧
      session.stage.layers.length = 3 ∧ session.stage.target = .ofLayer 2 ∧
      ∃ outermost inner, session.scopes = [outermost] ∧ session.released = [inner] ∧
        outermost.scope.release.run session.stage =
          .ok ({ outermost.scope with state := .released }, .ok ())
            { session.stage with target := .ofLayer 0 } ∧
        inner.release.run session.stage = .ok (inner, .ok ()) session.stage ∧
        inner.material session.stage = .error (.staleEditScope "/M\x7blook=y\x7d") := by
  have houter := EditScope.run_enter twoLooks ⟨[.plain "M"]⟩ ⟨"look", "x"⟩ (some 1)
    (by decide) (by decide)
  have hinner := EditScope.run_enter { twoLooks with
      target := (EditTarget.ofLayer 1).redirect ⟨[.plain "M"]⟩ ⟨"look", "x"⟩ }
    ⟨[.plain "M"]⟩ ⟨"look", "y"⟩ none (by decide) (by decide)
  have hinside : Relation.ReflTransGen Step (start twoLooks) _ :=
    (((Relation.ReflTransGen.refl.tail
      (.opened (.enter ⟨[.plain "M"]⟩ ⟨"look", "x"⟩ (some 1)) houter)).tail
      (.opened (.enter ⟨[.plain "M"]⟩ ⟨"look", "y"⟩ none) hinner)).tail
      (.author (.setTarget (.ofLayer 0)))).tail
      (.author (.addSublayer "more"))
  have hlayer := Stage.has_layer_of_layers twoLooks.layers
  obtain ⟨hclosing, -, -⟩ := scopes_restore_target hlayer hinside
  have hrun : Relation.ReflTransGen Step (start twoLooks) _ :=
    (hinside.tail (.released (hclosing _ _ rfl).1)).tail (.author (.setTarget (.ofLayer 2)))
  obtain ⟨houtermost, -, hreleased⟩ := scopes_restore_target hlayer hrun
  obtain ⟨hagain, -, hstale, -⟩ := hreleased _ List.mem_cons_self
  exact ⟨_, hrun, rfl, rfl, _, _, rfl, rfl, (houtermost _ _ rfl).1, hagain, hstale⟩

end Session

end LayeredShading
