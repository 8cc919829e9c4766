import LayeredShading.Network.BaseMaterial
import LayeredShading.Network.MasterVariant
import LayeredShading.Network.Resolution
import LayeredShading.Proofs.Stage.Operation

/-!
# Programs that author

`Edit.Authored` are the programs made of operations, of new sublayers and of changes of the target:
in any order, with whatever is read in between deciding what comes next, and with errors handled or
not. `Authored.related` proves what such a program does to a stage from what each write does. All
operations on materials, networks, variants, scopes and bases are such programs.
-/

namespace LayeredShading

/-- The name of the attribute that an operation is about is the name of a property. -/
def Operation.Proper (operation : Operation) : Prop :=
  ∀ path, operation.attribute? = some path → isPropertyName path.name = true

namespace Edit

/-- A program made of operations, new sublayers and changes of the target. -/
inductive Authored : {α : Type} → Edit α → Prop where
  | pure {α : Type} (value : α) : Authored (pure value : Edit α)
  | throw {α : Type} (error : Error) : Authored (throw error : Edit α)
  | get : Authored (get : Edit Stage)
  | operation {operation : Operation} : operation.Proper → Authored operation.run
  | addSublayer (identifier : String) : Authored (addSublayer identifier)
  | setTarget (target : EditTarget) : Authored (setTarget target)
  | bind {α β : Type} {program : Edit α} {next : α → Edit β} : Authored program →
      (∀ stage value later, program.run stage = .ok value later → Authored (next value)) →
      Authored (program >>= next)
  | tryCatch {α : Type} {program : Edit α} {handler : Error → Edit α} : Authored program →
      (∀ error, Authored (handler error)) → Authored (tryCatch program handler)

/-- What every write does to a stage, and what new sublayers and changes of the target do, a
program made of them does too, if it can be put together. -/
theorem Authored.related {related : Stage → Stage → Prop} (hrefl : ∀ stage, related stage stage)
    (htrans : ∀ first second third, related first second → related second third →
      related first third)
    (hwrites : ∀ (operation : Operation) stage later, operation.Proper →
      operation.Writes stage later → related stage later)
    (hsublayer : ∀ (stage : Stage) identifier,
      related stage (stage.after (Edit.addSublayer identifier)))
    (htarget : ∀ (stage : Stage) target, related stage (stage.after (Edit.setTarget target)))
    {α : Type} {program : Edit α} (h : Authored program) (stage : Stage) :
    related stage (stage.after program) := by
  induction h generalizing stage with
  | pure value => exact hrefl stage
  | throw error => exact hrefl stage
  | get => exact hrefl stage
  | @operation operation hproper =>
      exact Operation.after_of_writes (related stage) (hrefl stage)
        fun _ _ hbetween hwrite => htrans _ _ _ hbetween (hwrites operation _ _ hproper hwrite)
  | addSublayer identifier => exact hsublayer stage identifier
  | setTarget target => exact htarget stage target
  | bind _ _ hprogram hnext =>
      exact after_bind_related htrans (hprogram stage) fun value between hrun =>
        hnext stage value between hrun between
  | @tryCatch _ program handler _ _ hprogram hhandler =>
      have hfirst := hprogram stage
      rw [Stage.after] at hfirst ⊢
      rw [run_try_catch]
      cases hrun : program.run stage with
      | ok value between => simpa [hrun] using hfirst
      | error error between =>
          rw [hrun] at hfirst
          exact htrans _ _ _ hfirst (hhandler error between)

/-- What every write keeps, and new sublayers and changes of the target keep, a program made of them
keeps. -/
theorem Authored.kept (holds : Stage → Prop)
    (hwrites : ∀ (operation : Operation) stage later, operation.Proper →
      operation.Writes stage later → holds stage → holds later)
    (hsublayer : ∀ (stage : Stage) identifier, holds stage →
      holds (stage.after (Edit.addSublayer identifier)))
    (htarget : ∀ (stage : Stage) target, holds stage →
      holds (stage.after (Edit.setTarget target)))
    {α : Type} {program : Edit α} (h : Authored program) {stage : Stage} (hstage : holds stage) :
    holds (stage.after program) :=
  @Authored.related (fun stage later => holds stage → holds later) (fun _ => id)
    (fun _ _ _ hfirst hsecond => hsecond ∘ hfirst) hwrites hsublayer htarget α program h stage
    hstage

/-! ## Parts of programs -/

/-- A check gives its result or its error. -/
theorem Authored.check {α : Type} (checked : Except Error α) : Authored (check checked) := by
  cases checked with
  | ok value => exact .pure value
  | error error => exact .throw error

/-- A loop with an authored body, whatever the body is run on. -/
theorem Authored.forM {α : Type} {list : List α} {body : α → Edit PUnit}
    (h : ∀ element, Authored (body element)) : Authored (list.forM body) := by
  induction list with
  | nil => exact .pure _
  | cons head rest ih => exact .bind (h head) fun _ _ _ _ => ih

/-- An operation on a prim is authored whatever its arguments are. -/
theorem Authored.of_no_attribute (operation : Operation) (h : operation.attribute? = none) :
    Authored operation.run :=
  .operation fun path hpath => by rw [h] at hpath; cases hpath

/-- An operation on an attribute is authored if its name is the name of a property. -/
theorem Authored.of_attribute (operation : Operation) {path : PropertyPath}
    (h : operation.attribute? = some path) (hname : isPropertyName path.name = true) :
    Authored operation.run :=
  .operation fun other hother => by
    obtain rfl : path = other := by simpa [h] using hother
    exact hname

/-- A program that goes on in the same way whatever its first part gives. -/
theorem Authored.bind_any {α β : Type} {program : Edit α} {next : α → Edit β}
    (hprogram : Authored program) (hnext : ∀ value, Authored (next value)) :
    Authored (program >>= next) :=
  .bind hprogram fun _ value _ _ => hnext value

/-- Observing handles every error. -/
theorem Authored.observing {α : Type} {program : Edit α} (h : Authored program) :
    Authored (observing program) :=
  .tryCatch (.bind_any h fun _ => .pure _) fun _ => .pure _

theorem Authored.ite {α : Type} {condition : Prop} [Decidable condition] {first second : Edit α}
    (hfirst : Authored first) (hsecond : Authored second) :
    Authored (if condition then first else second) := by
  split
  next => exact hfirst
  next => exact hsecond

/-- Requiring a prim only reads the stage. -/
theorem Authored.requirePrim (path : PrimPath) : Authored (requirePrim path) := by
  refine .bind_any .get fun stage => ?_
  split
  next => exact .pure _
  next => exact .throw _

theorem Authored.requireVariant (path : PrimPath) (choice : VariantChoice) :
    Authored (requireVariant path choice) := by
  refine .bind_any (.bind_any (.requirePrim path) fun prim => ?_) fun composed => ?_
  · split
    next => exact .pure _
    next => exact .throw _
  · exact .ite (.throw _) (.pure _)

end Edit

open Edit

/-! ## Attributes and outputs -/

section Attributes

variable {path : PropertyPath} (hname : isPropertyName path.name = true)

include hname

/-- The operations on an attribute are authored if it has the name of a property. -/
theorem Edit.Authored.createAttribute (type : ValueType) (custom : Bool) :
    Authored (createAttribute path type custom) :=
  .of_attribute (.createAttribute path type custom) rfl hname

theorem Edit.Authored.setDefault (value : Value) : Authored (setDefault path value) :=
  .of_attribute (.setDefault path value) rfl hname

theorem Edit.Authored.setConnections (sources : List PropertyPath) :
    Authored (setConnections path sources) :=
  .of_attribute (.setConnections path sources) rfl hname

/-- A value is assigned by a declaration, where there is none yet, and a default. -/
theorem Attribute.authored_assign (value : Value) : Authored (assign path value) :=
  .bind_any .get fun _ =>
    .ite (.bind_any (.createAttribute hname _ _) fun _ => .setDefault hname value)
      (.setDefault hname value)

theorem Attribute.authored_clear : Authored (clear path) :=
  .of_attribute (.clearDefault path) rfl hname

/-- An output is connected by one operation on its attribute, if the source is another one. -/
theorem Output.authored_connect (source : PropertyPath) : Authored (connect path source) :=
  .bind_any (.ite (.throw _) (.pure _)) fun _ => .setConnections hname [source]

theorem Output.authored_add_source (source : PropertyPath) : Authored (addSource path source) :=
  .bind_any (.ite (.throw _) (.pure _)) fun _ =>
    .of_attribute (.addConnection path source) rfl hname

/-- Disconnecting an output blocks what weaker opinions connect, with an empty list. -/
theorem Output.authored_disconnect : Authored (disconnect path) := .setConnections hname []

/-- Clearing the sources of an output takes back the target's own opinion only. -/
theorem Output.authored_clear_sources : Authored (clearSources path) :=
  .of_attribute (.clearConnections path) rfl hname

end Attributes

/-- Only prims have properties, which have names of properties. -/
theorem PrimPath.property_eq_ok_iff {prim : PrimPath} {name : String} {path : PropertyPath} :
    prim.property name = .ok path ↔
      prim.isRoot = false ∧ isPropertyName name = true ∧ ⟨prim, name⟩ = path := by
  rw [property]
  cases prim.isRoot <;> cases isPropertyName name <;> simp

/-- What a prim gives out as a property can be authored. -/
theorem PrimPath.is_property_name_of_property {prim : PrimPath} {name : String}
    {path : PropertyPath} (h : prim.property name = .ok path) :
    isPropertyName path.name = true := by
  obtain ⟨-, hname, rfl⟩ := property_eq_ok_iff.mp h
  exact hname

/-- An attribute is declared before its default is set, or not at all where it stays sparse. -/
theorem Attribute.authored_create (prim : PrimPath) (typeName name : String) (type : ValueType)
    (default : Option Value) (sparse : Bool) :
    Authored (create prim typeName name type default sparse) := by
  refine .bind (.check _) fun stage path later hrun => ?_
  have hname := PrimPath.is_property_name_of_property (run_check_eq_ok.mp hrun).1
  refine .bind_any .get fun _ => ?_
  refine .ite (.pure path) (.bind_any (.createAttribute hname _ _) fun _ => ?_)
  cases default with
  | none => exact .pure path
  | some value => exact .bind_any (.setDefault hname value) fun _ => .pure path

/-! ## Networks -/

/-- The prims of a network are defined with their types. -/
theorem Material.authored_define (path : PrimPath) : Authored (Material.define path) :=
  .of_no_attribute (.definePrim path (some materialType)) rfl

theorem Shader.authored_define (path : PrimPath) : Authored (Shader.define path) :=
  .of_no_attribute (.definePrim path (some shaderType)) rfl

theorem NodeGraph.authored_define (path : PrimPath) : Authored (NodeGraph.define path) :=
  .of_no_attribute (.definePrim path (some nodeGraphType)) rfl

/-- An input is set as the attribute of its name. -/
theorem Shader.authored_set_input (shader : PrimPath) (name : String) (value : Value) :
    Authored (setInput shader name value) :=
  .bind (.check _) fun _ _ _ hrun => Attribute.authored_assign
    (PrimPath.is_property_name_of_property (run_check_eq_ok.mp hrun).1) value

/-! ## Variants and scopes -/

/-- A selection is checked against the composed set before the operation. -/
theorem VariantSet.authored_select (prim : PrimPath) (choice : VariantChoice) :
    Authored (VariantSet.select prim choice) := by
  have hselect : Authored (selectVariant prim choice) :=
    .of_no_attribute (.selectVariant prim choice) rfl
  exact .bind_any .get fun _ => .ite (.bind_any (.throw _) fun _ => hselect) hselect

namespace EditScope

/-- Opening a scope is one change of the target. -/
theorem authored_enter (prim : PrimPath) (choice : VariantChoice) (layer : Option Nat) :
    Authored (enter prim choice layer) :=
  .bind_any (.requireVariant prim choice) fun _ => .bind_any .get fun _ =>
    .bind_any (.setTarget _) fun _ => .pure _

/-- Releasing a scope is at most one change of the target. -/
theorem authored_release (scope : EditScope) : Authored scope.release :=
  .ite (.bind_any (.observing (.setTarget _)) fun _ => .pure _) (.pure _)

theorem authored_drop (scope : EditScope) : Authored scope.drop :=
  .bind_any scope.authored_release fun _ => .pure _

theorem authored_close (scope : EditScope) : Authored scope.close :=
  .bind_any scope.authored_release fun (closed, outcome) =>
    .bind_any closed.authored_drop fun _ => .check outcome

/-- What is authored is authored within a scope, too, or refused. -/
theorem authored_edit {α : Type} {program : Edit α} (h : Authored program) (scope : EditScope) :
    Authored (scope.edit program) :=
  .bind_any (.check _) fun _ => h

/-- A program within a scope of its own changes the target twice. -/
theorem authored_during {α : Type} {program : Edit α} (h : Authored program) (prim : PrimPath)
    (choice : VariantChoice) (layer : Option Nat) :
    Authored (during prim choice layer program) := by
  refine .bind_any (authored_enter prim choice layer) fun scope => ?_
  refine .bind_any (.tryCatch (authored_edit h scope) fun error => ?_) fun _ => ?_
  · exact .bind_any scope.authored_drop fun _ => .throw error
  · exact .bind_any scope.authored_close fun _ => .pure _

end EditScope

/-- The selection is only read before the scope is opened. -/
theorem Material.authored_enter_selected (material : PrimPath) (set : String)
    (layer : Option Nat) : Authored (enterSelected material set layer) := by
  refine .bind_any .get fun stage => ?_
  split
  next => exact .throw _
  next =>
    split
    next => exact .throw _
    next => exact EditScope.authored_enter _ _ _

/-- The variant is added and selected before the scope is opened. -/
theorem Material.authored_enter_variant (material : PrimPath) (variant : String)
    (layer : Option Nat) : Authored (enterVariant material variant layer) :=
  .bind_any (.of_no_attribute (.addVariant material ⟨variantSet, variant⟩) rfl)
    fun _ => .bind_any (VariantSet.authored_select _ _) fun _ => EditScope.authored_enter _ _ _

/-- Master variants are made by operations on the master, a declaration and a reference for each. -/
theorem MasterVariant.authored_create (master : PrimPath) (materials : List PrimPath)
    (set : Option String) : Authored (create master materials set) := by
  refine .bind_any .get fun stage => .bind_any (.check _) fun _ => .forM fun material => ?_
  refine .bind_any (.of_no_attribute
    (.addVariant master ⟨set.getD Material.variantSet, Material.name material⟩) rfl)
    fun _ => EditScope.authored_during ?_ _ _ _
  exact .of_no_attribute (.addReference master material) rfl

/-! ## Base materials -/

/-- A base is set as the only prim that the material specializes. -/
theorem Material.authored_set_base (material base : PrimPath) :
    Authored (setBase material base) := by
  have hset : Authored (setSpecializes material [base]) :=
    .of_no_attribute (.setSpecializes material [base]) rfl
  exact .bind_any .get fun _ => .ite (.bind_any (.throw _) fun _ => hset) hset

/-- A base is cleared by an empty list, if there is one. -/
theorem Material.authored_clear_base (material : PrimPath) : Authored (clearBase material) :=
  .bind_any .get fun _ =>
    .ite (.of_no_attribute (.setSpecializes material []) rfl) (.pure _)

end LayeredShading
