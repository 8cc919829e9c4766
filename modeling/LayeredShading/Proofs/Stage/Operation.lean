import LayeredShading.Proofs.Stage.Editing
import Mathlib.Logic.Relation

/-!
# Operations and what they write

`Operation` lists the operations that author opinions on one prim or its attributes. Whatever the
arguments are and whether or not the operation fails, it leaves the stage by writing single specs
(`writes_after`): `Operation.Makes` says for each operation which specs of the target's layer it
makes or changes and which checks have passed then, and `Operation.Amends` which ones it changes
only where they are.
-/

namespace LayeredShading

/-- The path of a prim of the scene is neither the root nor has it choices. -/
theorem PrimPath.require_scene_path_eq_ok_iff {path : PrimPath} :
    path.requireScenePath = .ok () ↔ path.isRoot = false ∧ path.hasChoices = false := by
  simp [requireScenePath]

namespace Stage

/-- The stage that a program leaves, whether or not it fails. -/
def after {α : Type} (stage : Stage) (program : Edit α) : Stage :=
  match program.run stage with
  | .ok _ between => between
  | .error _ between => between

/-- The stage after a change of the spec at a path in the layer of an index, if there is one. -/
def amended (stage : Stage) (place : Nat) (site : PrimPath) (change : PrimSpec → PrimSpec) :
    Stage :=
  { stage with layers := stage.layers.modify place fun layer => layer.changeOwnSpec site change }

variable {stage : Stage} {place : Nat} {site : PrimPath} {change : PrimSpec → PrimSpec}

@[simp]
theorem target_amended : (stage.amended place site change).target = stage.target := rfl

@[simp]
theorem length_layers_amended :
    (stage.amended place site change).layers.length = stage.layers.length := by
  simp [amended]

/-- A spec is amended where it is, and all other specs stay as they are. -/
theorem spec_amended (other : Nat) (path : PrimPath) :
    (stage.amended place site change).spec? other path =
      if other = place ∧ path = site then (stage.spec? place site).map change
      else stage.spec? other path := by
  by_cases hother : other = place
  · subst hother
    have hchanged : (stage.amended other site change).spec? other path =
        stage.layers[other]?.bind fun layer => (layer.changeOwnSpec site change).spec? path := by
      rw [spec?, amended, List.getElem?_modify_eq]
      cases stage.layers[other]? <;> rfl
    rw [hchanged]
    cases hlayer : stage.layers[other]? with
    | none => simp [spec?, hlayer]
    | some layer =>
        simp [spec?, hlayer, Layer.changeOwnSpec, Layer.spec?, SortedMap.get?_modify]
  · have hlayer : (stage.amended place site change).layers[other]? = stage.layers[other]? := by
      have hne : place ≠ other := Ne.symm hother
      simp [amended, hne]
    rw [spec?, hlayer, if_neg (fun h => hother h.1)]
    rfl

end Stage

/-! ## The stage that a program leaves -/

namespace Edit

variable {α β : Type} {stage : Stage}

theorem after_of_ok {program : Edit α} {value : α} {between : Stage}
    (h : program.run stage = .ok value between) : stage.after program = between := by
  rw [Stage.after, h]

theorem after_of_error {program : Edit α} {error : Error} {between : Stage}
    (h : program.run stage = .error error between) : stage.after program = between := by
  rw [Stage.after, h]

/-- A program that ends without an error leaves the stage after it. -/
theorem exists_run_eq_ok_after {program : Edit α} (h : (program.run' stage).isSome = true) :
    ∃ value, program.run stage = .ok value (stage.after program) := by
  delta EStateM.run' at h
  cases hrun : program.run stage with
  | ok value between => exact ⟨value, by rw [after_of_ok hrun]⟩
  | error error between =>
      rw [hrun] at h
      cases h

theorem run_eq_ok_after {program : Edit Unit} (h : (program.run' stage).isSome = true) :
    program.run stage = .ok () (stage.after program) := by
  obtain ⟨_, hrun⟩ := exists_run_eq_ok_after h
  exact hrun

theorem after_bind (program : Edit α) (next : α → Edit β) :
    stage.after (program >>= next) = match program.run stage with
      | .ok value between => between.after (next value)
      | .error _ between => between := by
  rw [Stage.after, EStateM.run_bind]
  cases program.run stage <;> rfl

/-- A program that leaves every stage as it is. -/
def ReadsOnly (program : Edit α) : Prop := ∀ stage : Stage, stage.after program = stage

theorem reads_only_pure (value : α) : ReadsOnly (pure value) := fun _ => rfl

theorem reads_only_throw (error : Error) : ReadsOnly (throw error : Edit α) := fun _ => rfl

theorem reads_only_get : ReadsOnly (get : Edit Stage) := fun _ => rfl

theorem reads_only_check (checked : Except Error α) : ReadsOnly (check checked) := by
  intro stage
  cases checked <;> rfl

theorem ReadsOnly.bind {program : Edit α} {next : α → Edit β} (hprogram : ReadsOnly program)
    (hnext : ∀ value, ReadsOnly (next value)) : ReadsOnly (program >>= next) := by
  intro stage
  have hstage := hprogram stage
  rw [Stage.after] at hstage
  rw [after_bind]
  cases hrun : program.run stage with
  | ok value between =>
      obtain rfl : between = stage := by simpa [hrun] using hstage
      exact hnext value between
  | error error between => simpa [hrun] using hstage

theorem reads_only_require_prim (path : PrimPath) : ReadsOnly (requirePrim path) := by
  refine reads_only_get.bind fun stage => ?_
  cases hprim : stage.prim? path with
  | none => simpa only [hprim] using reads_only_throw _
  | some prim => simpa only [hprim] using reads_only_pure _

theorem reads_only_require_attribute (path : PropertyPath) : ReadsOnly (requireAttribute path) := by
  refine (reads_only_require_prim path.prim).bind fun prim => ?_
  cases hattribute : prim.attribute? path.name with
  | none => simpa only [hattribute] using reads_only_throw _
  | some composed => simpa only [hattribute] using reads_only_pure _

theorem reads_only_require_variant (path : PrimPath) (choice : VariantChoice) :
    ReadsOnly (requireVariant path choice) := by
  have hset : ReadsOnly (requireVariantSet path choice.set) := by
    refine (reads_only_require_prim path).bind fun prim => ?_
    cases hfound : prim.variantSet? choice.set with
    | none => simpa only [hfound] using reads_only_throw _
    | some composed => simpa only [hfound] using reads_only_pure _
  refine hset.bind fun composed => ?_
  cases hvariant : composed.hasVariant choice.variant with
  | false => simpa [hvariant] using reads_only_throw _
  | true => simpa [hvariant] using reads_only_pure _

theorem reads_only_require_name (name : String) : ReadsOnly (requireName name) :=
  (reads_only_check _).bind fun _ => reads_only_pure _

/-- After a program that only reads, whatever comes next starts from the same stage. -/
theorem ReadsOnly.run_eq_ok {program : Edit α} (h : ReadsOnly program) {value : α}
    {between : Stage} (hrun : program.run stage = .ok value between) : between = stage := by
  rw [← after_of_ok hrun, h stage]

/-- What is reached from a stage by a sequence that starts with reading is reached by the rest of
the sequence. -/
theorem ReadsOnly.after_bind_of {program : Edit α} (h : ReadsOnly program) {next : α → Edit β}
    (reached : Stage → Prop) (hself : reached stage)
    (hnext : ∀ value, program.run stage = .ok value stage → reached (stage.after (next value))) :
    reached (stage.after (program >>= next)) := by
  rw [after_bind]
  cases hrun : program.run stage with
  | ok value between =>
      obtain rfl := h.run_eq_ok hrun
      exact hnext value hrun
  | error error between =>
      obtain rfl : between = stage := by rw [← after_of_error hrun, h stage]
      exact hself

theorem ReadsOnly.forM {list : List α} {body : α → Edit PUnit}
    (h : ∀ element ∈ list, ReadsOnly (body element)) : ReadsOnly (list.forM body) := by
  induction list with
  | nil => exact reads_only_pure _
  | cons head rest ih =>
      exact (h head List.mem_cons_self).bind fun _ =>
        ih fun element hmem => h element (List.mem_cons_of_mem _ hmem)

/-- A sequence of checks passes exactly if all of them do. -/
theorem run_for_m_check_eq_ok {list : List α} {checked : α → Except Error Unit} {after : Stage} :
    (list.forM fun element => check (checked element)).run stage = .ok () after ↔
      (∀ element ∈ list, checked element = .ok ()) ∧ stage = after := by
  induction list with
  | nil => simp
  | cons head rest ih =>
      show ((check (checked head)) >>= fun _ =>
        rest.forM fun element => check (checked element)).run stage = .ok () after ↔ _
      rw [run_bind_eq_ok]
      simp only [run_check_eq_ok, List.forall_mem_cons]
      constructor
      · rintro ⟨_, _, ⟨hhead, rfl⟩, hrest⟩
        obtain ⟨hchecked, hsame⟩ := ih.mp hrest
        exact ⟨⟨hhead, hchecked⟩, hsame⟩
      · rintro ⟨⟨hhead, hchecked⟩, hsame⟩
        exact ⟨(), stage, ⟨hhead, rfl⟩, ih.mpr ⟨hchecked, hsame⟩⟩

/-- What holds between the stages around each part of a sequence, and is passed on, holds between
the stages around the sequence. -/
theorem after_bind_related {related : Stage → Stage → Prop}
    (htrans : ∀ first second third, related first second → related second third →
      related first third) {program : Edit α} {next : α → Edit β}
    (hprogram : related stage (stage.after program))
    (hnext : ∀ value between, program.run stage = .ok value between →
      related between (between.after (next value))) :
    related stage (stage.after (program >>= next)) := by
  rw [Stage.after] at hprogram
  rw [after_bind]
  cases hrun : program.run stage with
  | ok value between =>
      rw [hrun] at hprogram
      exact htrans stage between _ hprogram (hnext value between hrun)
  | error error between =>
      rw [hrun] at hprogram
      exact hprogram

/-- What holds between the stages around each round of a loop, and is passed on, holds between the
stages around the loop. -/
theorem after_for_m_related {related : Stage → Stage → Prop} (hrefl : ∀ stage, related stage stage)
    (htrans : ∀ first second third, related first second → related second third →
      related first third) {list : List α} {body : α → Edit PUnit}
    (hbody : ∀ element ∈ list, ∀ between : Stage, related between (between.after (body element))) :
    related stage (stage.after (list.forM body)) := by
  induction list generalizing stage with
  | nil => exact hrefl stage
  | cons head rest ih =>
      exact after_bind_related htrans (hbody head List.mem_cons_self stage) fun _ between _ =>
        ih fun element hmem => hbody element (List.mem_cons_of_mem _ hmem)

theorem after_change_spec {path : PrimPath} {specifier : Specifier}
    {change : PrimSpec → PrimSpec} :
    stage.after (changeSpec path specifier change) =
      if stage.target.layer < stage.layers.length then
        stage.changed stage.target.layer (stage.target.specPath path) specifier change
      else stage := by
  have hrun : stage.after (changeSpec path specifier change) =
      stage.after (if stage.target.layer < stage.layers.length then
        set (stage.changed stage.target.layer (stage.target.specPath path) specifier change)
      else throw (.layerOutOfBounds stage.target.layer stage.layers.length)) := rfl
  rw [hrun]
  split <;> rfl

theorem after_set_target {target : EditTarget} :
    stage.after (setTarget target) =
      if target.layer < stage.layers.length then { stage with target } else stage := by
  have hrun : stage.after (setTarget target) =
      stage.after (if target.layer < stage.layers.length then set { stage with target }
      else throw (.layerOutOfBounds target.layer stage.layers.length)) := rfl
  rw [hrun]
  split <;> rfl

/-- Setting a target has no effect if it fails. -/
theorem later_eq_of_run_set_target {target : EditTarget} {error : Error} {later : Stage}
    (h : (setTarget target).run stage = .error error later) : later = stage := by
  have hafter := after_of_error h
  rw [after_set_target] at hafter
  split at hafter
  next hlayer =>
    have hok : (setTarget target).run stage = .ok () _ := run_set_target_eq_ok.mpr ⟨hlayer, rfl⟩
    rw [h] at hok
    cases hok
  next => exact hafter.symm

/-- A required attribute is declared on the composed prim. -/
theorem run_require_attribute_eq_ok {path : PropertyPath} {composed : ComposedAttribute}
    {after : Stage} :
    (requireAttribute path).run stage = .ok composed after ↔
      stage.attribute? path = some composed ∧ stage = after := by
  rw [requireAttribute, run_bind_eq_ok, Stage.attribute?, Option.bind_eq_bind,
    Option.bind_eq_some_iff]
  simp only [run_require_prim_eq_ok]
  constructor
  · rintro ⟨prim, _, ⟨hprim, rfl⟩, h⟩
    cases hattribute : prim.attribute? path.name with
    | none =>
        simp only [hattribute] at h
        exact absurd h run_throw_ne_ok
    | some found =>
        simp only [hattribute, run_pure_eq_ok] at h
        exact ⟨⟨prim, hprim, hattribute.trans (congrArg some h.1)⟩, h.2⟩
  · rintro ⟨⟨prim, hprim, hattribute⟩, rfl⟩
    exact ⟨prim, stage, ⟨hprim, rfl⟩, by simp [hattribute]⟩

/-- A default of the composed type is set in the spec that the edit target names. -/
theorem run_set_default_eq_ok {path : PropertyPath} {value : Value} {after : Stage} :
    (setDefault path value).run stage = .ok () after ↔
      ∃ composed, stage.attribute? path = some composed ∧ value.type = composed.type ∧
        stage.target.layer < stage.layers.length ∧
        stage.changed stage.target.layer (stage.target.specPath path.prim) .override
          (fun spec => spec.changeAttribute path.name (.declare composed.type composed.custom)
            fun own => { own with default := some value }) = after := by
  rw [setDefault, run_bind_eq_ok]
  simp only [run_require_attribute_eq_ok]
  constructor
  · rintro ⟨composed, _, ⟨hcomposed, rfl⟩, h⟩
    split at h
    next =>
      obtain ⟨_, _, hthrow, -⟩ := run_bind_eq_ok.mp h
      exact absurd hthrow run_throw_ne_ok
    next htype => exact ⟨composed, hcomposed, not_not.mp htype, run_change_spec_eq_ok.mp h⟩
  · rintro ⟨composed, hcomposed, htype, h⟩
    refine ⟨composed, stage, ⟨hcomposed, rfl⟩, ?_⟩
    rw [if_neg (not_not.mpr htype)]
    exact run_change_spec_eq_ok.mpr h

/-- Connections without choices are set in the spec that the edit target names. -/
theorem run_set_connections_eq_ok {path : PropertyPath} {sources : List PropertyPath}
    {after : Stage} :
    (setConnections path sources).run stage = .ok () after ↔
      ∃ composed, stage.attribute? path = some composed ∧
        (∀ source ∈ sources, source.prim.hasChoices = false) ∧
        stage.target.layer < stage.layers.length ∧
        stage.changed stage.target.layer (stage.target.specPath path.prim) .override
          (fun spec => spec.changeAttribute path.name (.declare composed.type composed.custom)
            fun own => { own with connections := some sources }) = after := by
  rw [setConnections, run_bind_eq_ok]
  simp only [run_require_attribute_eq_ok]
  constructor
  · rintro ⟨composed, _, ⟨hcomposed, rfl⟩, h⟩
    cases hfound : sources.find? fun source => source.prim.hasChoices with
    | some source =>
        simp only [hfound] at h
        obtain ⟨_, _, hthrow, -⟩ := run_bind_eq_ok.mp h
        exact absurd hthrow run_throw_ne_ok
    | none =>
        simp only [hfound] at h
        have hplain : ∀ source ∈ sources, source.prim.hasChoices = false := by
          simpa using List.find?_eq_none.mp hfound
        exact ⟨composed, hcomposed, hplain, run_change_spec_eq_ok.mp h⟩
  · rintro ⟨composed, hcomposed, hplain, h⟩
    have hfound : (sources.find? fun source => source.prim.hasChoices) = none := by
      simpa using hplain
    refine ⟨composed, stage, ⟨hcomposed, rfl⟩, ?_⟩
    simp only [hfound]
    exact run_change_spec_eq_ok.mpr h

/-- A connection without choices is added as the last one in the spec that the edit target names,
to the connections there or else to the composed ones. -/
theorem run_add_connection_eq_ok {path source : PropertyPath} {after : Stage} :
    (addConnection path source).run stage = .ok () after ↔
      ∃ composed, stage.attribute? path = some composed ∧ source.prim.hasChoices = false ∧
        stage.target.layer < stage.layers.length ∧
        stage.changed stage.target.layer (stage.target.specPath path.prim) .override
          (fun spec => spec.changeAttribute path.name (.declare composed.type composed.custom)
            fun own =>
              let before := own.connections.getD composed.connections
              { own with connections := some (before.filter (· ≠ source) ++ [source]) }) =
          after := by
  rw [addConnection, run_bind_eq_ok]
  simp only [run_require_attribute_eq_ok]
  constructor
  · rintro ⟨composed, _, ⟨hcomposed, rfl⟩, h⟩
    split at h
    next =>
      obtain ⟨_, _, hthrow, -⟩ := run_bind_eq_ok.mp h
      exact absurd hthrow run_throw_ne_ok
    next hplain =>
      exact ⟨composed, hcomposed, by simpa using hplain, run_change_spec_eq_ok.mp h⟩
  · rintro ⟨composed, hcomposed, hplain, h⟩
    refine ⟨composed, stage, ⟨hcomposed, rfl⟩, ?_⟩
    rw [if_neg (by simp [hplain])]
    exact run_change_spec_eq_ok.mpr h

/-- What a prim specializes is set if all sources are prims of the scene and the prim composes, in
the spec that the edit target names. -/
theorem run_set_specializes_eq_ok {path : PrimPath} {sources : List PrimPath}
    {after : Stage} :
    (setSpecializes path sources).run stage = .ok () after ↔
      (∀ source ∈ sources, source.requireScenePath = .ok ()) ∧ stage.hasPrim path = true ∧
        stage.target.layer < stage.layers.length ∧
        stage.changed stage.target.layer (stage.target.specPath path) .override
          (fun spec => { spec with specializes := some sources }) = after := by
  simp only [setSpecializes, run_bind_eq_ok, run_require_prim_eq_ok]
  constructor
  · rintro ⟨_, _, hchecks, _, _, ⟨hprim, rfl⟩, h⟩
    obtain ⟨hsources, rfl⟩ := run_for_m_check_eq_ok.mp hchecks
    exact ⟨hsources, Option.isSome_of_eq_some hprim, run_change_spec_eq_ok.mp h⟩
  · rintro ⟨hsources, hprim, h⟩
    obtain ⟨prim, hcomposed⟩ := Option.isSome_iff_exists.mp hprim
    exact ⟨(), stage, run_for_m_check_eq_ok.mpr ⟨hsources, rfl⟩, prim, stage, ⟨hcomposed, rfl⟩,
      run_change_spec_eq_ok.mpr h⟩

end Edit

/-! ## Operations -/

/-- An operation that authors opinions on a prim or on one of its attributes. -/
inductive Operation where
  | definePrim (path : PrimPath) (typeName : Option String)
  | overridePrim (path : PrimPath)
  | createAttribute (path : PropertyPath) (type : ValueType) (custom : Bool)
  | setDefault (path : PropertyPath) (value : Value)
  | clearDefault (path : PropertyPath)
  | setConnections (path : PropertyPath) (sources : List PropertyPath)
  | addConnection (path source : PropertyPath)
  | clearConnections (path : PropertyPath)
  | addReference (path source : PrimPath)
  | setSpecializes (path : PrimPath) (sources : List PrimPath)
  | clearSpecializes (path : PrimPath)
  | addVariantSet (path : PrimPath) (set : String)
  | addVariant (path : PrimPath) (choice : VariantChoice)
  | selectVariant (path : PrimPath) (choice : VariantChoice)
  | clearSelection (path : PrimPath) (set : String)
  deriving DecidableEq

namespace Operation

/-- The program of an operation. -/
def run : Operation → Edit Unit
  | definePrim path typeName => Edit.definePrim path typeName
  | overridePrim path => Edit.overridePrim path
  | createAttribute path type custom => Edit.createAttribute path type custom
  | setDefault path value => Edit.setDefault path value
  | clearDefault path => Edit.clearDefault path
  | setConnections path sources => Edit.setConnections path sources
  | addConnection path source => Edit.addConnection path source
  | clearConnections path => Edit.clearConnections path
  | addReference path source => Edit.addReference path source
  | setSpecializes path sources => Edit.setSpecializes path sources
  | clearSpecializes path => Edit.clearSpecializes path
  | addVariantSet path set => Edit.addVariantSet path set
  | addVariant path choice => Edit.addVariant path choice
  | selectVariant path choice => Edit.selectVariant path choice
  | clearSelection path set => Edit.clearSelection path set

/-- The prim that an operation is about. -/
def prim : Operation → PrimPath
  | definePrim path _ | overridePrim path | addReference path _ | setSpecializes path _
  | clearSpecializes path | addVariantSet path _ | addVariant path _ | selectVariant path _
  | clearSelection path _ => path
  | createAttribute path _ _ | setDefault path _ | clearDefault path | setConnections path _
  | addConnection path _ | clearConnections path => path.prim

/-- The attribute that an operation is about. -/
def attribute? : Operation → Option PropertyPath
  | createAttribute path _ _ | setDefault path _ | clearDefault path | setConnections path _
  | addConnection path _ | clearConnections path => some path
  | _ => none

/-- `Makes stage operation path specifier change` says that the checks of an operation pass on a
stage and that it then changes the spec of a prim, which it makes if there is none. -/
inductive Makes (stage : Stage) :
    Operation → PrimPath → Specifier → (PrimSpec → PrimSpec) → Prop where
  | definePrim {path typeName} : path.requireScenePath = .ok () →
      Makes stage (.definePrim path typeName) path .define
        fun spec => { spec with typeName := typeName <|> spec.typeName }
  | defineAbove {path typeName above} : path.requireScenePath = .ok () →
      above ∈ path.ancestry.dropLast → stage.hasPrim above = false →
      Makes stage (.definePrim path typeName) above .define id
  | overridePrim {path} : path.requireScenePath = .ok () → stage.hasPrim path = true →
      Makes stage (.overridePrim path) path .override id
  | createAttribute {path : PropertyPath} {type custom} : stage.hasPrim path.prim = true →
      (∀ existing, stage.attribute? path = some existing → existing.type = type) →
      Makes stage (.createAttribute path type custom) path.prim .override
        fun spec => spec.changeAttribute path.name (.declare type custom) id
  | setDefault {path : PropertyPath} {value composed} :
      stage.attribute? path = some composed → value.type = composed.type →
      Makes stage (.setDefault path value) path.prim .override
        fun spec => spec.changeAttribute path.name (.declare composed.type composed.custom)
          fun own => { own with default := some value }
  | setConnections {path : PropertyPath} {sources composed} :
      stage.attribute? path = some composed →
      (∀ source ∈ sources, source.prim.hasChoices = false) →
      Makes stage (.setConnections path sources) path.prim .override
        fun spec => spec.changeAttribute path.name (.declare composed.type composed.custom)
          fun own => { own with connections := some sources }
  | addConnection {path source : PropertyPath} {composed} :
      stage.attribute? path = some composed → source.prim.hasChoices = false →
      Makes stage (.addConnection path source) path.prim .override
        fun spec => spec.changeAttribute path.name (.declare composed.type composed.custom)
          fun own =>
            let before := own.connections.getD composed.connections
            { own with connections := some (before.filter (· ≠ source) ++ [source]) }
  | addReference {path source} : source.requireScenePath = .ok () → stage.hasPrim path = true →
      Makes stage (.addReference path source) path .override
        fun spec => { spec with references := addNew spec.references source }
  | setSpecializes {path sources} : (∀ source ∈ sources, source.requireScenePath = .ok ()) →
      stage.hasPrim path = true →
      Makes stage (.setSpecializes path sources) path .override
        fun spec => { spec with specializes := some sources }
  | addVariantSet {path set} : isPrimName set = true → stage.hasPrim path = true →
      Makes stage (.addVariantSet path set) path .override fun spec => spec.addVariantSet set
  | addVariant {path} {choice : VariantChoice} : isPrimName choice.set = true →
      isPrimName choice.variant = true → stage.hasPrim path = true →
      Makes stage (.addVariant path choice) path .override
        fun spec => spec.addVariants choice.set [choice.variant]
  | selectVariant {path choice} : VariantSet.hasVariant stage path choice = true →
      Makes stage (.selectVariant path choice) path .override
        fun spec => { spec with
          variantSelection := spec.variantSelection.insert choice.set choice.variant }

/-- `Amends operation path change` says that an operation changes the spec of a prim if there is
one. -/
inductive Amends : Operation → PrimPath → (PrimSpec → PrimSpec) → Prop where
  | clearDefault {path : PropertyPath} : Amends (.clearDefault path) path.prim
      fun spec => spec.changeOwnAttribute path.name fun own => { own with default := none }
  | clearConnections {path : PropertyPath} : Amends (.clearConnections path) path.prim
      fun spec => spec.changeOwnAttribute path.name fun own => { own with connections := none }
  | clearSpecializes {path} : Amends (.clearSpecializes path) path
      fun spec => { spec with specializes := none }
  | clearSelection {path set} : Amends (.clearSelection path set) path
      fun spec => { spec with variantSelection := spec.variantSelection.erase set }

/-- One spec of the target's layer is written. -/
inductive Writes (operation : Operation) (stage : Stage) : Stage → Prop where
  | made {path specifier change} : operation.Makes stage path specifier change →
      stage.target.layer < stage.layers.length →
      Writes operation stage
        (stage.changed stage.target.layer (stage.target.specPath path) specifier change)
  | amended {path change} : operation.Amends path change →
      Writes operation stage
        (stage.amended stage.target.layer (stage.target.specPath path) change)

/-- A sequence of reads and writes that starts with reading. -/
theorem writes_after_bind {operation : Operation} {α : Type} {program : Edit α}
    (h : Edit.ReadsOnly program) {stage : Stage} {next : α → Edit Unit}
    (hnext : ∀ value, program.run stage = .ok value stage →
      Relation.ReflTransGen operation.Writes stage (stage.after (next value))) :
    Relation.ReflTransGen operation.Writes stage (stage.after (program >>= next)) :=
  h.after_bind_of (Relation.ReflTransGen operation.Writes stage) .refl hnext

/-- A change that an operation makes is a write, if the layer of the target exists. -/
theorem writes_after_change {operation : Operation} {stage : Stage} {path : PrimPath}
    {specifier : Specifier} {change : PrimSpec → PrimSpec}
    (h : operation.Makes stage path specifier change) :
    Relation.ReflTransGen operation.Writes stage
      (stage.after (Edit.changeSpec path specifier change)) := by
  rw [Edit.after_change_spec]
  split
  next hlayer => exact .single (.made h hlayer)
  next => exact .refl

/-- A change of a prim that has to exist. -/
theorem writes_after_require_prim {operation : Operation} {stage : Stage} {path : PrimPath}
    {specifier : Specifier} {change : PrimSpec → PrimSpec}
    (h : stage.hasPrim path = true → operation.Makes stage path specifier change) :
    Relation.ReflTransGen operation.Writes stage
      (stage.after (Edit.requirePrim path >>= fun _ => Edit.changeSpec path specifier change)) := by
  refine writes_after_bind (Edit.reads_only_require_prim path) fun prim hrun => ?_
  have hprim := (Edit.run_require_prim_eq_ok.mp hrun).1
  exact writes_after_change (h (Option.isSome_of_eq_some hprim))

/-- An edit of an attribute that has to be declared. -/
theorem writes_after_require_attribute {operation : Operation} {stage : Stage}
    {path : PropertyPath} {next : ComposedAttribute → Edit Unit}
    (h : ∀ composed, stage.attribute? path = some composed →
      Relation.ReflTransGen operation.Writes stage (stage.after (next composed))) :
    Relation.ReflTransGen operation.Writes stage
      (stage.after (Edit.requireAttribute path >>= next)) := by
  refine writes_after_bind (Edit.reads_only_require_attribute path) fun composed hrun => ?_
  exact h composed (Edit.run_require_attribute_eq_ok.mp hrun).1

/-- A definition makes the prims above that do not exist, one after the other, and then its prim. -/
theorem writes_after_define_prim (stage : Stage) (path : PrimPath) (typeName : Option String) :
    Relation.ReflTransGen (definePrim path typeName).Writes stage
      (stage.after (definePrim path typeName).run) := by
  refine writes_after_bind (Edit.reads_only_check _) fun _ hcheck => ?_
  have hpath := (Edit.run_check_eq_ok.mp hcheck).1
  refine Edit.after_bind_related (fun _ _ _ => .trans) ?_
    fun _ between _ => writes_after_change (.definePrim hpath)
  refine Edit.after_for_m_related (fun _ => .refl) (fun _ _ _ => .trans) ?_
  intro above habove between
  refine writes_after_bind Edit.reads_only_get fun current hcurrent => ?_
  obtain ⟨rfl, -⟩ := Edit.run_get_eq_ok.mp hcurrent
  split
  next hprim => exact writes_after_change (.defineAbove hpath habove (by simpa using hprim))
  next => exact .refl

/-- A declaration is written unless the attribute is declared with another type. -/
theorem writes_after_create_attribute (stage : Stage) (path : PropertyPath) (type : ValueType)
    (custom : Bool) :
    Relation.ReflTransGen (createAttribute path type custom).Writes stage
      (stage.after (createAttribute path type custom).run) := by
  refine writes_after_bind (Edit.reads_only_require_prim _) fun prim hrun => ?_
  have hprim := (Edit.run_require_prim_eq_ok.mp hrun).1
  have hfound : stage.attribute? path = prim.attribute? path.name := by
    rw [Stage.attribute?, hprim]
    rfl
  have hmakes (h : ∀ existing, prim.attribute? path.name = some existing → existing.type = type) :=
    writes_after_change
      (@Makes.createAttribute _ path type custom (Option.isSome_of_eq_some hprim) (hfound ▸ h))
  split
  next existing hexisting =>
    split
    next => exact .refl
    next htype =>
      refine hmakes fun other hother => ?_
      obtain rfl := Option.some.inj (hexisting.symm.trans hother)
      exact not_not.mp htype
  next hundeclared => exact hmakes fun other hother => absurd hother (hundeclared other)

/-- A default is written if it is of the composed type. -/
theorem writes_after_set_default (stage : Stage) (path : PropertyPath) (value : Value) :
    Relation.ReflTransGen (setDefault path value).Writes stage
      (stage.after (setDefault path value).run) := by
  refine writes_after_require_attribute fun composed hcomposed => ?_
  split
  next => exact .refl
  next htype => exact writes_after_change (.setDefault hcomposed (not_not.mp htype))

/-- Connections are written if none of them goes into a variant. -/
theorem writes_after_set_connections (stage : Stage) (path : PropertyPath)
    (sources : List PropertyPath) :
    Relation.ReflTransGen (setConnections path sources).Writes stage
      (stage.after (setConnections path sources).run) := by
  refine writes_after_require_attribute fun composed hcomposed => ?_
  split
  next => exact .refl
  next hplain =>
    refine writes_after_change (.setConnections hcomposed ?_)
    have hnone := Option.eq_none_iff_forall_ne_some.mpr hplain
    simpa using hnone

/-- A connection is written if it does not go into a variant. -/
theorem writes_after_add_connection (stage : Stage) (path source : PropertyPath) :
    Relation.ReflTransGen (addConnection path source).Writes stage
      (stage.after (addConnection path source).run) := by
  refine writes_after_require_attribute fun composed hcomposed => ?_
  split
  next => exact .refl
  next hplain => exact writes_after_change (.addConnection hcomposed (Bool.eq_false_iff.mpr hplain))

/-- Whether or not it fails, an operation leaves a stage by writing single specs. -/
theorem writes_after (operation : Operation) (stage : Stage) :
    Relation.ReflTransGen operation.Writes stage (stage.after operation.run) := by
  cases operation with
  | definePrim path typeName => exact writes_after_define_prim stage path typeName
  | overridePrim path =>
      refine writes_after_bind (Edit.reads_only_check _) fun _ hcheck => ?_
      exact writes_after_require_prim (.overridePrim (Edit.run_check_eq_ok.mp hcheck).1)
  | createAttribute path type custom => exact writes_after_create_attribute stage path type custom
  | setDefault path value => exact writes_after_set_default stage path value
  | setConnections path sources => exact writes_after_set_connections stage path sources
  | addConnection path source => exact writes_after_add_connection stage path source
  | addReference path source =>
      refine writes_after_bind (Edit.reads_only_check _) fun _ hcheck => ?_
      exact writes_after_require_prim (.addReference (Edit.run_check_eq_ok.mp hcheck).1)
  | setSpecializes path sources =>
      refine writes_after_bind (.forM fun source _ => Edit.reads_only_check _) fun _ hchecks => ?_
      exact writes_after_require_prim (.setSpecializes (Edit.run_for_m_check_eq_ok.mp hchecks).1)
  | addVariantSet path set =>
      refine writes_after_bind (Edit.reads_only_require_name _) fun _ hname => ?_
      exact writes_after_require_prim (.addVariantSet (Edit.run_require_name_eq_ok.mp hname).1)
  | addVariant path choice =>
      refine writes_after_bind (Edit.reads_only_require_name _) fun _ hset => ?_
      refine writes_after_bind (Edit.reads_only_require_name _) fun _ hvariant => ?_
      exact writes_after_require_prim (.addVariant (Edit.run_require_name_eq_ok.mp hset).1
        (Edit.run_require_name_eq_ok.mp hvariant).1)
  | selectVariant path choice =>
      refine writes_after_bind (Edit.reads_only_require_variant _ _) fun _ hrun => ?_
      exact writes_after_change (.selectVariant (Edit.run_require_variant_eq_ok.mp hrun).1)
  | clearDefault path => exact .single (.amended .clearDefault)
  | clearConnections path => exact .single (.amended .clearConnections)
  | clearSpecializes path => exact .single (.amended .clearSpecializes)
  | clearSelection path set => exact .single (.amended .clearSelection)

/-- What holds of a stage and is kept by every write of an operation holds of the stage that the
operation leaves. -/
theorem after_of_writes {operation : Operation} {stage : Stage} (reached : Stage → Prop)
    (hself : reached stage)
    (hwrite : ∀ between later, reached between → operation.Writes between later → reached later) :
    reached (stage.after operation.run) := by
  have hwrites := operation.writes_after stage
  generalize stage.after operation.run = later at hwrites
  induction hwrites with
  | refl => exact hself
  | tail _ hstep ih => exact hwrite _ _ ih hstep

/-! ## Where the writes are -/

section Place

variable {operation : Operation} {stage later : Stage} {path : PrimPath} {specifier : Specifier}
  {change : PrimSpec → PrimSpec}

/-- An operation makes specs of its prim and of prims above it that do not exist. -/
theorem Makes.path_eq_or (h : operation.Makes stage path specifier change) :
    path = operation.prim ∨
      operation.prim.hasChoices = false ∧ path ∈ operation.prim.ancestry ∧
        stage.hasPrim path = false := by
  cases h with
  | defineAbove hpath habove hprim =>
      exact .inr ⟨(PrimPath.require_scene_path_eq_ok_iff.mp hpath).2,
        List.dropLast_subset _ habove, hprim⟩
  | _ => exact .inl rfl

/-- An operation amends the spec of its prim only. -/
theorem Amends.path_eq (h : operation.Amends path change) : path = operation.prim := by
  cases h <;> rfl

/-- A write leaves the target and the number of layers as they are. -/
theorem Writes.target_eq (h : operation.Writes stage later) : later.target = stage.target := by
  cases h <;> rfl

theorem Writes.length_layers_eq (h : operation.Writes stage later) :
    later.layers.length = stage.layers.length := by
  cases h <;> simp

theorem Writes.identifiers_eq (h : operation.Writes stage later) :
    later.layerIdentifiers = stage.layerIdentifiers := by
  have hmodify : ∀ (layers : List Layer) (place : Nat) (write : Layer → Layer),
      (∀ layer, (write layer).identifier = layer.identifier) →
        (layers.modify place write).map (·.identifier) = layers.map (·.identifier) := by
    intro layers place write hwrite
    apply List.ext_getElem
    · simp
    · intro index _ _
      simp only [List.getElem_map, List.getElem_modify]
      split
      next => exact hwrite _
      next => rfl
  cases h with
  | made _ _ => exact hmodify _ _ _ fun _ => rfl
  | amended _ => exact hmodify _ _ _ fun _ => rfl

/-- What a write does to a spec: nothing, unless the target keeps there a prim of which the operation
makes or amends a spec. It makes one of what was there, or of a blank one. -/
theorem Writes.spec_cases (h : operation.Writes stage later) (place : Nat) (site : PrimPath) :
    later.spec? place site = stage.spec? place site ∨
      (∃ path specifier change, operation.Makes stage path specifier change ∧
        (place = stage.target.layer ∧ site = stage.target.specPath path) ∧
        later.spec? place site =
          let own := (stage.spec? place site).getD (.blank specifier)
          some (change { own with specifier := own.specifier.join specifier })) ∨
      ∃ path change, operation.Amends path change ∧
        (place = stage.target.layer ∧ site = stage.target.specPath path) ∧
        later.spec? place site = (stage.spec? place site).map change := by
  cases h with
  | @made path specifier change hmakes hlayer =>
      rw [Stage.spec_changed hlayer]
      split
      next hhere =>
        obtain ⟨rfl, rfl⟩ := hhere
        exact .inr (.inl ⟨path, specifier, change, hmakes, ⟨rfl, rfl⟩, rfl⟩)
      next => exact .inl rfl
  | @amended path change hamends =>
      rw [Stage.spec_amended]
      split
      next hhere =>
        obtain ⟨rfl, rfl⟩ := hhere
        exact .inr (.inr ⟨path, change, hamends, ⟨rfl, rfl⟩, rfl⟩)
      next => exact .inl rfl

/-- A write changes no spec but one that the target keeps for the operation's prim or for a prim
above it that does not exist. -/
theorem Writes.spec_eq (h : operation.Writes stage later) {place : Nat} {site : PrimPath}
    (hself : site ≠ stage.target.specPath operation.prim)
    (habove : operation.prim.hasChoices = false → ∀ above ∈ operation.prim.ancestry,
      stage.hasPrim above = false → site ≠ stage.target.specPath above) :
    later.spec? place site = stage.spec? place site := by
  rcases h.spec_cases place site with hsame | ⟨path, _, _, hmakes, ⟨-, hsite⟩, -⟩ |
    ⟨path, _, hamends, ⟨-, hsite⟩, -⟩
  · exact hsame
  · rcases hmakes.path_eq_or with rfl | ⟨hplain, hmem, hprim⟩
    · exact absurd hsite hself
    · exact absurd hsite (habove hplain path hmem hprim)
  · obtain rfl := hamends.path_eq
    exact absurd hsite hself

end Place

end Operation

end LayeredShading
