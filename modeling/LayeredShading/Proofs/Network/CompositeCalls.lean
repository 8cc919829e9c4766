import LayeredShading.Network.Shader
import LayeredShading.Proofs.Network.VariantEdits
import LayeredShading.Proofs.Stage.Atomicity
import LayeredShading.Proofs.Stage.View

/-!
# Calls of several operations

A composite call runs operations one after the other and stops at the first that fails, which has
no effect itself; what the earlier ones have written stays (`CompositeCall.fails_along`). For
outputs and connections nothing is written before the last check. In the other calls an operation
reads back from the composed scene what the one before it has written: the declared type, or the
added variant. It is sure to find it if what is written is in view and the arguments fit
(`CompositeCall.Guarded`), and then a call that fails has no effect (`CompositeCall.failed_call`).
`CompositeCall.unguarded_calls` has calls that leave a part behind.
-/

namespace LayeredShading

open Opinion

/-! ## What a failing program leaves -/

namespace Stage

/-- Everything is as before but the spec that the target keeps for a prim. -/
structure SameBut (path : PrimPath) (stage later : Stage) : Prop where
  target_eq : later.target = stage.target
  identifiers_eq : later.layerIdentifiers = stage.layerIdentifiers
  spec_eq : ∀ place site, ¬ (place = stage.target.layer ∧ site = stage.target.specPath path) →
    later.spec? place site = stage.spec? place site

theorem SameBut.refl (path : PrimPath) (stage : Stage) : SameBut path stage stage :=
  ⟨rfl, rfl, fun _ _ _ => rfl⟩

theorem SameBut.trans {path : PrimPath} {first second third : Stage} (h : SameBut path first second)
    (hnext : SameBut path second third) : SameBut path first third where
  target_eq := hnext.target_eq.trans h.target_eq
  identifiers_eq := hnext.identifiers_eq.trans h.identifiers_eq
  spec_eq place site hsite := by
    rw [hnext.spec_eq place site (h.target_eq ▸ hsite), h.spec_eq place site hsite]

end Stage

/-- Whether an operation defines a prim, and with it prims above. -/
def Operation.defines : Operation → Bool
  | definePrim _ _ => true
  | _ => false

/-- An operation that does not define a prim writes one spec at most. -/
theorem Operation.same_but {operation : Operation} (h : operation.defines = false)
    (stage : Stage) :
    Stage.SameBut operation.prim stage (stage.after operation.run) := by
  have hframed := operation.framed stage
  refine ⟨hframed.target_eq, hframed.identifiers_eq, fun place site hsite => ?_⟩
  by_cases hplace : place = stage.target.layer
  · refine hframed.spec_eq place site ?_
    rintro (hsame | ⟨typeName, hdefines, -⟩)
    · exact hsite ⟨hplace, hsame⟩
    · have hself := congrArg defines hdefines
      rw [h] at hself
      cases hself
  · rw [Stage.spec?, hframed.layer_eq place hplace]
    rfl

/-- Nor do several operations on one prim. -/
theorem Stage.same_but_after_all {path : PrimPath} {operations : List Operation}
    (h : ∀ operation ∈ operations, operation.prim = path ∧ operation.defines = false)
    (stage : Stage) :
    SameBut path stage (stage.afterAll operations) := by
  induction operations generalizing stage with
  | nil => exact .refl path stage
  | cons operation rest ih =>
      obtain ⟨⟨rfl, hdefines⟩, hrest⟩ := List.forall_mem_cons.mp h
      exact (Operation.same_but hdefines stage).trans (ih hrest _)

namespace Edit

variable {α β : Type} {stage : Stage} {operation : Operation} {operations rest : List Operation}

/-- Where a program fails on a stage, it leaves what some of the first operations lead to. -/
def FailsAlong (stage : Stage) (operations : List Operation) (program : Edit α) : Prop :=
  ∀ error later, program.run stage = .error error later →
    ∃ done, done <+: operations ∧ later = stage.afterAll done

/-- A program that has no effect on a stage if it fails. -/
abbrev FailsClean (stage : Stage) (program : Edit α) : Prop := FailsAlong stage [] program

theorem FailsClean.later_eq {program : Edit α} (h : FailsClean stage program) {error : Error}
    {later : Stage} (herror : program.run stage = .error error later) : later = stage := by
  obtain ⟨done, hdone, rfl⟩ := h error later herror
  rw [List.prefix_nil.mp hdone]
  rfl

theorem fails_clean_of {program : Edit α}
    (h : ∀ error later, program.run stage = .error error later → later = stage) :
    FailsClean stage program :=
  fun error later herror => ⟨[], List.prefix_rfl, h error later herror⟩

theorem FailsAlong.mono {program : Edit α} (h : FailsAlong stage operations program)
    (hmore : operations <+: rest) : FailsAlong stage rest program := by
  intro error later herror
  obtain ⟨done, hdone, rfl⟩ := h error later herror
  exact ⟨done, hdone.trans hmore, rfl⟩

theorem FailsClean.along {program : Edit α} (h : FailsClean stage program) :
    FailsAlong stage operations program :=
  h.mono List.nil_prefix

theorem ReadsOnly.fails_clean {program : Edit α} (h : ReadsOnly program) :
    FailsClean stage program :=
  fails_clean_of fun _ _ herror => by rw [← after_of_error herror, h stage]

theorem fails_clean_pure (value : α) : FailsClean stage (pure value : Edit α) :=
  (reads_only_pure value).fails_clean

theorem fails_clean_operation (hlayer : stage.HasLayer stage.target) (operation : Operation) :
    FailsClean stage operation.run :=
  fails_clean_of fun error later herror => (operation.atomic stage hlayer error later herror).1

theorem FailsAlong.ite {condition : Prop} [Decidable condition] {first second : Edit α}
    (hfirst : FailsAlong stage operations first) (hsecond : FailsAlong stage operations second) :
    FailsAlong stage operations (if condition then first else second) := by
  split
  next => exact hfirst
  next => exact hsecond

/-- Without its result a program fails in the same way. -/
theorem FailsAlong.dropped {program : Edit α} (h : FailsAlong stage operations program) :
    FailsAlong stage operations (do let _ ← program) := by
  intro error later herror
  cases hrun : program.run stage with
  | ok value between =>
      rw [run_bind_of_ok hrun] at herror
      cases herror
  | error refusal between =>
      rw [run_bind_of_error hrun] at herror
      cases herror
      exact h _ _ hrun

/-- What is read first changes nothing. -/
theorem ReadsOnly.fails_along {program : Edit α} {next : α → Edit β} (h : ReadsOnly program)
    (hnext : ∀ value, program.run stage = .ok value stage →
      FailsAlong stage operations (next value)) :
    FailsAlong stage operations (program >>= next) := by
  intro error later herror
  cases hrun : program.run stage with
  | ok value between =>
      obtain rfl := h.run_eq_ok hrun
      rw [run_bind_of_ok hrun] at herror
      exact hnext value hrun error later herror
  | error refusal between =>
      rw [run_bind_of_error hrun] at herror
      cases herror
      exact h.fails_clean.along _ _ hrun

/-- An operation that succeeds has led to the stage that the rest starts from. -/
theorem fails_along_operation (hlayer : stage.HasLayer stage.target) (operation : Operation)
    {next : Unit → Edit β}
    (hnext : ∀ between : Stage, between.HasLayer between.target →
      operation.run.run stage = .ok () between → FailsAlong between rest (next ())) :
    FailsAlong stage (operation :: rest) (operation.run >>= next) := by
  intro error later herror
  cases hrun : operation.run.run stage with
  | ok value between =>
      obtain rfl : stage.after operation.run = between := after_of_ok hrun
      rw [run_bind_of_ok hrun] at herror
      obtain ⟨done, hdone, rfl⟩ :=
        hnext _ (operation.has_layer_after hlayer) hrun error later herror
      exact ⟨operation :: done, (List.prefix_cons_inj operation).mpr hdone, rfl⟩
  | error refusal between =>
      rw [run_bind_of_error hrun] at herror
      cases herror
      exact (fails_clean_operation hlayer operation).along _ _ hrun

/-- Where nothing after a program fails, the whole has no effect if it fails. -/
theorem fails_clean_bind {program : Edit α} {next : α → Edit β} (h : FailsClean stage program)
    (hnext : ∀ value between, program.run stage = .ok value between →
      ∃ result later, (next value).run between = .ok result later) :
    FailsClean stage (program >>= next) := by
  intro error later herror
  cases hrun : program.run stage with
  | ok value between =>
      obtain ⟨_, _, hrest⟩ := hnext value between hrun
      rw [run_bind_of_ok hrun, hrest] at herror
      cases herror
  | error refusal between =>
      rw [run_bind_of_error hrun] at herror
      cases herror
      exact h _ _ hrun

end Edit

open Edit

/-! ## Attributes -/

section Attributes

variable {stage : Stage} {prim : PrimPath} {path : PropertyPath} {typeName name : String}
  {type : ValueType} {value : Value} {default : Option Value} {sparse : Bool}

/-- The composed prim declares the attribute, or will when the attribute is declared. -/
def Stage.ShowsAttribute (stage : Stage) (path : PropertyPath) : Prop :=
  (stage.attribute? path).isSome = true ∨ stage.InView path.prim

instance (stage : Stage) (path : PropertyPath) : Decidable (stage.ShowsAttribute path) :=
  inferInstanceAs (Decidable (_ ∨ _))

/-- An attribute that shows can be set after it is declared with the type of the value. -/
theorem Stage.ShowsAttribute.exists_run_set_default (h : stage.ShowsAttribute path)
    (hlayer : stage.HasLayer stage.target) (hname : isPropertyName path.name = true) {custom : Bool}
    {between : Stage} (hrun : (createAttribute path value.type custom).run stage = .ok () between) :
    ∃ later, (setDefault path value).run between = .ok () later := by
  obtain ⟨composed, hcomposed, htype⟩ :=
    Option.map_eq_some_iff.mp (attribute_type_of_run_create hrun hname h)
  have hbetween : between.HasLayer between.target := by
    rw [← after_of_ok hrun]
    exact (Operation.createAttribute path value.type custom).has_layer_after hlayer
  exact ⟨_, run_set_default_eq_ok.mpr ⟨composed, hcomposed, htype.symm, hbetween, rfl⟩⟩

namespace Attribute

/-- The operations of a declaration with a default. -/
def creating (path : PropertyPath) (typeName : String) (type : ValueType)
    (default : Option Value) : List Operation :=
  .createAttribute path type (Schema.attribute? typeName path.name).isNone ::
    (default.map (.setDefault path)).toList

/-- The operations by which a value is set. -/
def assigning (stage : Stage) (path : PropertyPath) (value : Value) : List Operation :=
  if isDeclared stage path then [.setDefault path value]
  else [.createAttribute path value.type (definition? stage path).isNone, .setDefault path value]

/-- They are about the prim of the attribute. -/
theorem prim_eq_of_mem_creating {operation : Operation}
    (h : operation ∈ creating path typeName type default) :
    operation.prim = path.prim ∧ operation.defines = false := by
  rcases List.mem_cons.mp h with rfl | h
  · exact ⟨rfl, rfl⟩
  · obtain ⟨value, -, rfl⟩ := Option.map_eq_some_iff.mp (Option.mem_toList.mp h)
    exact ⟨rfl, rfl⟩

theorem prim_eq_of_mem_assigning {operation : Operation}
    (h : operation ∈ assigning stage path value) :
    operation.prim = path.prim ∧ operation.defines = false := by
  have hset : operation = .setDefault path value ∨
      operation = .createAttribute path value.type (definition? stage path).isNone := by
    rw [assigning] at h
    split at h
    next => exact .inl (List.mem_singleton.mp h)
    next => exact (List.mem_pair.mp h).symm
  rcases hset with rfl | rfl
  · exact ⟨rfl, rfl⟩
  · exact ⟨rfl, rfl⟩

/-- A declaration that fails may leave the attribute without its default. -/
theorem fails_along_create (hlayer : stage.HasLayer stage.target) :
    FailsAlong stage (creating ⟨prim, name⟩ typeName type default)
      (create prim typeName name type default sparse) := by
  refine (reads_only_check _).fails_along fun path hpath => ?_
  obtain ⟨-, -, rfl⟩ := PrimPath.property_eq_ok_iff.mp (run_check_eq_ok.mp hpath).1
  refine reads_only_get.fails_along fun current _ => ?_
  refine .ite (fails_clean_pure _).along ?_
  refine fails_along_operation hlayer (.createAttribute _ _ _) fun between hbetween _ => ?_
  cases default with
  | none => exact fails_clean_pure _
  | some value =>
      exact fails_along_operation hbetween (.setDefault _ _) fun _ _ _ => fails_clean_pure _

/-- A declaration with a default of its type has no effect if it fails, as long as it shows. -/
theorem fails_clean_create (hlayer : stage.HasLayer stage.target)
    (hdefault : ∀ value ∈ default, value.type = type ∧ stage.ShowsAttribute ⟨prim, name⟩) :
    FailsClean stage (create prim typeName name type default sparse) := by
  refine (reads_only_check _).fails_along fun path hpath => ?_
  obtain ⟨-, hname, rfl⟩ := PrimPath.property_eq_ok_iff.mp (run_check_eq_ok.mp hpath).1
  refine reads_only_get.fails_along fun current _ => ?_
  refine .ite (fails_clean_pure _) ?_
  refine fails_clean_bind (fails_clean_operation hlayer (.createAttribute _ _ _))
    fun _ between hrun => ?_
  cases default with
  | none => exact ⟨_, between, rfl⟩
  | some value =>
      obtain ⟨rfl, hshows⟩ := hdefault value rfl
      obtain ⟨later, hset⟩ := hshows.exists_run_set_default hlayer hname hrun
      exact ⟨_, later, run_bind_of_ok hset⟩

theorem fails_clean_declare (hlayer : stage.HasLayer stage.target) :
    FailsClean stage (create prim typeName name type none sparse) :=
  fails_clean_create hlayer fun _ hvalue => absurd hvalue (Option.not_mem_none _)

theorem fails_clean_create_token {text : Option String} (hlayer : stage.HasLayer stage.target)
    (hshows : text.isSome → stage.ShowsAttribute ⟨prim, name⟩) :
    FailsClean stage (create prim typeName name .token (text.map .token) sparse) := by
  refine fails_clean_create hlayer fun value hvalue => ?_
  obtain ⟨text, rfl, rfl⟩ := Option.map_eq_some_iff.mp hvalue
  exact ⟨rfl, hshows rfl⟩

/-- Setting a value that fails may leave the attribute declared. -/
theorem fails_along_assign (hlayer : stage.HasLayer stage.target) :
    FailsAlong stage (assigning stage path value) (assign path value) := by
  refine reads_only_get.fails_along fun current hcurrent => ?_
  obtain ⟨rfl, -⟩ := run_get_eq_ok.mp hcurrent
  rw [assigning]
  cases isDeclared stage path with
  | true => exact (fails_clean_operation hlayer (.setDefault _ _)).along
  | false =>
      refine fails_along_operation hlayer (.createAttribute _ _ _) fun between hbetween _ => ?_
      exact (fails_clean_operation hbetween (.setDefault _ _)).along

/-- Setting the value of an attribute that shows has no effect if it fails. -/
theorem fails_clean_assign (hlayer : stage.HasLayer stage.target)
    (hname : isPropertyName path.name = true) (hshows : stage.ShowsAttribute path) :
    FailsClean stage (assign path value) := by
  refine reads_only_get.fails_along fun current hcurrent => ?_
  obtain ⟨rfl, -⟩ := run_get_eq_ok.mp hcurrent
  cases isDeclared stage path with
  | true => exact fails_clean_operation hlayer (.setDefault _ _)
  | false =>
      refine fails_clean_bind (fails_clean_operation hlayer (.createAttribute _ _ _))
        fun _ between hrun => ?_
      obtain ⟨later, hset⟩ := hshows.exists_run_set_default hlayer hname hrun
      exact ⟨(), later, hset⟩

end Attribute

end Attributes

/-! ## Connections -/

namespace Output

theorem reads_only_require_other (path source : PropertyPath) :
    (requireOther path source).ReadsOnly := by
  unfold requireOther
  split
  next => exact reads_only_throw _
  next => exact reads_only_pure _

variable {stage : Stage} (hlayer : stage.HasLayer stage.target) (path source : PropertyPath)

include hlayer

theorem fails_clean_connect : FailsClean stage (connect path source) :=
  (reads_only_require_other path source).fails_along fun _ _ =>
    fails_clean_operation hlayer (.setConnections path [source])

theorem fails_clean_add_source : FailsClean stage (addSource path source) :=
  (reads_only_require_other path source).fails_along fun _ _ =>
    fails_clean_operation hlayer (.addConnection path source)

end Output

/-! ## Variants -/

/-- Opening a scope has no effect if it fails. -/
theorem EditScope.fails_clean_enter (stage : Stage) (prim : PrimPath) (choice : VariantChoice)
    (layer : Option Nat) : FailsClean stage (enter prim choice layer) := by
  refine (reads_only_require_variant prim choice).fails_along fun _ _ => ?_
  refine reads_only_get.fails_along fun current hcurrent => ?_
  obtain ⟨rfl, -⟩ := run_get_eq_ok.mp hcurrent
  exact fails_clean_bind (fails_clean_of fun _ _ => later_eq_of_run_set_target)
    fun _ between _ => ⟨_, between, rfl⟩

/-- A declared variant can be selected. -/
theorem VariantSet.run_select {stage : Stage} {prim : PrimPath} {choice : VariantChoice}
    (hvariant : VariantSet.hasVariant stage prim choice = true)
    (hlayer : stage.HasLayer stage.target) :
    (VariantSet.select prim choice).run stage =
      .ok () (stage.changed stage.target.layer (stage.target.specPath prim) .override fun spec =>
        { spec with
          variantSelection := spec.variantSelection.insert choice.set choice.variant }) := by
  obtain ⟨composed, hcomposed, -⟩ := (Option.any_eq_true _ _).mp hvariant
  refine run_bind_eq_ok.mpr ⟨stage, stage, rfl, ?_⟩
  rw [if_neg (by rw [hcomposed]; simp)]
  exact run_select_variant_eq_ok.mpr ⟨hvariant, hlayer, rfl⟩

namespace Material

/-- The operations by which a variant is added and selected. -/
def entering (material : PrimPath) (variant : String) : List Operation :=
  [.addVariant material ⟨variantSet, variant⟩, .selectVariant material ⟨variantSet, variant⟩]

variable {stage : Stage} {material : PrimPath} {variant : String} {layer : Option Nat}

/-- Entering a new variant that fails may leave it added, or added and selected. -/
theorem fails_along_enter_variant (hlayer : stage.HasLayer stage.target) :
    FailsAlong stage (entering material variant) (enterVariant material variant layer) := by
  refine fails_along_operation hlayer (.addVariant _ _) fun added hadded _ => ?_
  rw [VariantSet.select, bind_assoc]
  refine reads_only_get.fails_along fun current _ => ?_
  split
  next => exact fails_clean_of (by rintro _ _ ⟨⟩; rfl) |>.along
  next =>
    refine fails_along_operation hadded (.selectVariant _ _) fun selected _ _ => ?_
    exact EditScope.fails_clean_enter selected _ _ layer

/-- Entering a new variant of a material in view, in a layer that exists, has no effect if it
fails. -/
theorem fails_clean_enter_variant (hlayer : stage.HasLayer stage.target)
    (hview : stage.InView material) (hplace : layer.getD stage.target.layer < stage.layers.length) :
    FailsClean stage (enterVariant material variant layer) := by
  let choice : VariantChoice := ⟨variantSet, variant⟩
  let site := stage.target.specPath material
  refine fails_clean_bind (fails_clean_operation hlayer (.addVariant material choice))
    fun _ added hadd => ?_
  obtain ⟨-, -, hprim, -, rfl⟩ := run_add_variant_eq_ok.mp hadd
  obtain ⟨hroot, hplain, -⟩ := compose_is_some_iff.mp hprim
  let added := stage.changed stage.target.layer site .override
    fun spec => spec.addVariants choice.set [choice.variant]
  have haddedView : added.InView material := hview.changed hplain
  have haddedLayer : added.HasLayer added.target := hlayer.changed _ _ _ _
  obtain ⟨spec, hspec, hdeclares⟩ : ∃ spec, added.spec? added.target.layer site = some spec ∧
      spec.declares choice = true := Stage.exists_spec_declares hlayer
  have hvariant : VariantSet.hasVariant added material choice = true :=
    haddedView.has_variant hroot hplain hspec hdeclares
  -- The selection leaves what the spec declares.
  let selected := added.changed added.target.layer site .override fun spec =>
    { spec with variantSelection := spec.variantSelection.insert choice.set choice.variant }
  have hselect : (VariantSet.select material choice).run added = .ok () selected :=
    VariantSet.run_select hvariant haddedLayer
  have hselectedView : selected.InView material := haddedView.changed hplain
  have hselectedVariant : VariantSet.hasVariant selected material choice = true := by
    refine hselectedView.has_variant hroot hplain
      ((Stage.spec_changed haddedLayer _ _).trans (if_pos ⟨rfl, rfl⟩)) ?_
    rw [hspec]
    exact hdeclares
  refine ⟨_, _, (run_bind_of_ok hselect).trans
    (EditScope.run_enter selected material choice layer hselectedVariant ?_)⟩
  rw [Stage.length_layers_changed, Stage.length_layers_changed]
  exact hplace

end Material

/-! ## Composite calls -/

/-- A call of several operations. -/
inductive CompositeCall where
  | createTerminal (material : PrimPath) (kind : TerminalKind) (default : Option Value)
      (sparse : Bool)
  | createTerminalOutput (material : PrimPath) (kind : TerminalKind) (context : String)
  | createShaderOutput (shader : PrimPath) (name : String) (type : ValueType)
  | createGraphOutput (graph : PrimPath) (name : String) (type : ValueType)
  | createId (shader : PrimPath) (default : Option String) (sparse : Bool)
  | createImplementation (shader : PrimPath) (default : Option String) (sparse : Bool)
  | assign (path : PropertyPath) (value : Value)
  | connect (path source : PropertyPath)
  | addSource (path source : PropertyPath)
  | enterVariant (material : PrimPath) (variant : String) (layer : Option Nat)
  deriving DecidableEq

namespace CompositeCall

/-- The program of a call, without its result. -/
def run : CompositeCall → Edit Unit
  | createTerminal material kind default sparse => do
      let _ ← Material.createTerminal material kind default sparse
  | createTerminalOutput material kind context => do
      let _ ← Material.createTerminalOutput material kind context
  | createShaderOutput shader name type => do
      let _ ← Shader.createOutput shader name type
  | createGraphOutput graph name type => do
      let _ ← NodeGraph.createOutput graph name type
  | createId shader default sparse => do
      let _ ← Shader.createId shader default sparse
  | createImplementation shader default sparse => do
      let _ ← Shader.createImplementation shader default sparse
  | assign path value => Attribute.assign path value
  | connect path source => Output.connect path source
  | addSource path source => Output.addSource path source
  | enterVariant material variant layer => do
      let _ ← Material.enterVariant material variant layer

/-- The prim that a call is about. -/
def prim : CompositeCall → PrimPath
  | createTerminal prim _ _ _ | createTerminalOutput prim _ _ | createShaderOutput prim _ _
  | createGraphOutput prim _ _ | createId prim _ _ | createImplementation prim _ _
  | enterVariant prim _ _ => prim
  | assign path _ | connect path _ | addSource path _ => path.prim

/-- The operations of a call in their order. -/
def operations (stage : Stage) : CompositeCall → List Operation
  | createTerminal material kind default _ =>
      Attribute.creating ⟨material, kind.outputName universalContext⟩ materialType .token default
  | createTerminalOutput material kind context =>
      Attribute.creating ⟨material, kind.outputName context⟩ materialType .token none
  | createShaderOutput shader name type =>
      Attribute.creating ⟨shader, outputsNamespace ++ name⟩ shaderType type none
  | createGraphOutput graph name type =>
      Attribute.creating ⟨graph, outputsNamespace ++ name⟩ nodeGraphType type none
  | createId shader default _ =>
      Attribute.creating ⟨shader, idAttribute⟩ shaderType .token (default.map .token)
  | createImplementation shader default _ =>
      Attribute.creating ⟨shader, implementationAttribute⟩ shaderType .token (default.map .token)
  | assign path value => Attribute.assigning stage path value
  | connect path source => [.setConnections path [source]]
  | addSource path source => [.addConnection path source]
  | enterVariant material variant _ => Material.entering material variant

/-- The name of an attribute that is set is the name of a property. -/
def Proper : CompositeCall → Prop
  | assign path _ => isPropertyName path.name = true
  | _ => True

/-- What a call writes first is in view, as far as the call reads it back, and the arguments fit:
the default of a terminal is a token, and the layer for a scope exists. -/
def Guarded (stage : Stage) : CompositeCall → Prop
  | createTerminal material kind default _ => ∀ value ∈ default, value.type = .token ∧
      stage.ShowsAttribute ⟨material, kind.outputName universalContext⟩
  | createId shader default _ => default.isSome → stage.ShowsAttribute ⟨shader, idAttribute⟩
  | createImplementation shader default _ =>
      default.isSome → stage.ShowsAttribute ⟨shader, implementationAttribute⟩
  | assign path _ => stage.ShowsAttribute path
  | enterVariant material _ layer =>
      stage.InView material ∧ layer.getD stage.target.layer < stage.layers.length
  | createTerminalOutput .. | createShaderOutput .. | createGraphOutput .. | connect ..
  | addSource .. => True

variable {stage later : Stage} {call : CompositeCall}

/-- The operations of a call are about its prim and define none. -/
theorem prim_eq_of_mem_operations {operation : Operation} (h : operation ∈ call.operations stage) :
    operation.prim = call.prim ∧ operation.defines = false := by
  cases call with
  | createTerminal | createTerminalOutput | createShaderOutput | createGraphOutput | createId
  | createImplementation => exact Attribute.prim_eq_of_mem_creating h
  | assign path value => exact Attribute.prim_eq_of_mem_assigning h
  | connect path source =>
      obtain rfl := List.mem_singleton.mp h
      exact ⟨rfl, rfl⟩
  | addSource path source =>
      obtain rfl := List.mem_singleton.mp h
      exact ⟨rfl, rfl⟩
  | enterVariant material variant layer =>
      rcases List.mem_pair.mp h with rfl | rfl
      · exact ⟨rfl, rfl⟩
      · exact ⟨rfl, rfl⟩

/-- A call that fails leaves what some of its first operations lead to. -/
theorem fails_along (hlayer : stage.HasLayer stage.target) (call : CompositeCall) :
    FailsAlong stage (call.operations stage) call.run := by
  cases call with
  | createTerminal => exact (Attribute.fails_along_create hlayer).dropped
  | createTerminalOutput => exact (Attribute.fails_along_create hlayer).dropped
  | createShaderOutput => exact (Attribute.fails_along_create hlayer).dropped
  | createGraphOutput => exact (Attribute.fails_along_create hlayer).dropped
  | createId => exact (Attribute.fails_along_create hlayer).dropped
  | createImplementation => exact (Attribute.fails_along_create hlayer).dropped
  | assign => exact Attribute.fails_along_assign hlayer
  | connect => exact (Output.fails_clean_connect hlayer _ _).along
  | addSource => exact (Output.fails_clean_add_source hlayer _ _).along
  | enterVariant => exact (Material.fails_along_enter_variant hlayer).dropped

/-- A guarded call that fails has no effect. -/
theorem Guarded.fails_clean (h : call.Guarded stage) (hlayer : stage.HasLayer stage.target)
    (hproper : call.Proper) : FailsClean stage call.run := by
  cases call with
  | createTerminal => exact (Attribute.fails_clean_create hlayer h).dropped
  | createTerminalOutput => exact (Attribute.fails_clean_declare hlayer).dropped
  | createShaderOutput => exact (Attribute.fails_clean_declare hlayer).dropped
  | createGraphOutput => exact (Attribute.fails_clean_declare hlayer).dropped
  | createId => exact (Attribute.fails_clean_create_token hlayer h).dropped
  | createImplementation => exact (Attribute.fails_clean_create_token hlayer h).dropped
  | assign => exact Attribute.fails_clean_assign hlayer hproper h
  | connect => exact Output.fails_clean_connect hlayer _ _
  | addSource => exact Output.fails_clean_add_source hlayer _ _
  | enterVariant => exact (Material.fails_clean_enter_variant hlayer h.1 h.2).dropped

/-- What a failing call leaves. On every stage that is made of layers or loaded and then changed by
any actions, whatever the target and the arguments: a call that fails leaves the stage that some of
its first operations lead to, so the target and all specs but the one that the target keeps for the
prim are as before. If the call is guarded nothing has changed at all; calls that declare an output
without a default or connect one are. -/
theorem failed_call (h : stage.Reached) (hproper : call.Proper) {error : Error}
    (herror : call.run.run stage = .error error later) :
    (∃ done, done <+: call.operations stage ∧ later = stage.afterAll done) ∧
      Stage.SameBut call.prim stage later ∧ (call.Guarded stage → later = stage) := by
  have hlayer := h.has_layer
  obtain ⟨done, hdone, rfl⟩ := call.fails_along hlayer error later herror
  refine ⟨⟨done, hdone, rfl⟩, Stage.same_but_after_all (fun operation hmem => ?_) stage,
    fun hguarded => (hguarded.fails_clean hlayer hproper).later_eq herror⟩
  exact prim_eq_of_mem_operations (hdone.subset hmem)

/-- A material with an output that is not a token. -/
def numberedSurface : Stage :=
  ((Stage.ofLayers []).after
    (Action.author (.definePrim ⟨[.plain "M"]⟩ (some "Material"))).run).after
    (Action.author (.createAttribute ⟨⟨[.plain "M"]⟩, "outputs:surface"⟩ .int false)).run

/-- There a declaration of the terminal with a token as its default is guarded, and is refused
without a change. -/
theorem declaration_of_numbered_surface_refused :
    let call := createTerminal ⟨[.plain "M"]⟩ .surface (some (.token "red")) false
    call.Guarded numberedSurface ∧ ∃ error later,
      call.run.run numberedSurface = .error error later ∧ later = numberedSurface := by
  intro call
  have hreached : numberedSurface.Reached := .after _ (.after _ (.ofLayers []))
  have hguarded : call.Guarded numberedSurface := by
    rintro _ ⟨⟩
    exact ⟨rfl, by decide⟩
  have hrun : call.run.run numberedSurface = .error (.invalidArgument
      "attribute /M.outputs:surface is declared as int, not token") numberedSurface := rfl
  obtain ⟨-, -, hsame⟩ := @failed_call _ _ call hreached trivial _ hrun
  exact ⟨hguarded, _, _, hrun, hsame hguarded⟩

/-- A material, and the target in its first layer. -/
def plainMaterial : Stage :=
  (Stage.ofLayers []).after (Action.author (.definePrim ⟨[.plain "M"]⟩ (some "Material"))).run

/-- A material, and the target in a variant of it that is not declared. -/
def materialInMissingLook : Stage :=
  plainMaterial.after
    (Action.setTarget ((EditTarget.ofLayer 0).redirect ⟨[.plain "M"]⟩ ⟨"s", "v"⟩)).run

/-- Calls that are not guarded fail and leave something. A default of the wrong type leaves the
terminal declared, a layer that does not exist leaves the variant added and selected, and out of
view a value that is set leaves the attribute declared in the variant. -/
theorem unguarded_calls :
    plainMaterial.Reached ∧ materialInMissingLook.Reached ∧
      (∃ later, (createTerminal ⟨[.plain "M"]⟩ .surface (some (.string "red")) false).run.run
          plainMaterial =
            .error (.invalidValue "/M.outputs:surface is a token, got string") later ∧
        (plainMaterial.attribute? ⟨⟨[.plain "M"]⟩, "outputs:surface"⟩).isSome = false ∧
        (later.attribute? ⟨⟨[.plain "M"]⟩, "outputs:surface"⟩).isSome = true) ∧
      (∃ later, (enterVariant ⟨[.plain "M"]⟩ "x" (some 1)).run.run plainMaterial =
          .error (.layerOutOfBounds 1 1) later ∧
        VariantSet.selection? plainMaterial ⟨[.plain "M"]⟩ "materialVariant" = none ∧
        VariantSet.selection? later ⟨[.plain "M"]⟩ "materialVariant" = some "x") ∧
      ∃ later, (assign ⟨⟨[.plain "M"]⟩, "x"⟩ (.bool true)).run.run materialInMissingLook =
          .error (.invalidArgument "attribute /M.x is not declared") later ∧
        materialInMissingLook.spec? 0 ⟨[⟨"M", [⟨"s", "v"⟩]⟩]⟩ = none ∧
        (later.spec? 0 ⟨[⟨"M", [⟨"s", "v"⟩]⟩]⟩).isSome = true := by
  have hreached : plainMaterial.Reached := .after _ (.ofLayers [])
  refine ⟨hreached, .after _ hreached, ⟨_, rfl, ?_, ?_⟩, ⟨_, rfl, ?_, ?_⟩, _, rfl, ?_, ?_⟩
  all_goals decide

end CompositeCall

end LayeredShading
