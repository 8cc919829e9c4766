import LayeredShading.Proofs.Network.Resolution
import LayeredShading.Proofs.Stage.Atomicity
import LayeredShading.Proofs.Stage.View

/-!
# Types of attributes

Every spec that says something about an attribute declares a type for it. A composed attribute has
the type of the strongest opinion on it and the default of the strongest opinion that has one, so
the default may be of another type (`Stage.borrowed_default_of_other_type`). Two things are kept
along every run all the same. The specs at the path of a prim itself show whenever the prim is
written to, so over all layers they declare the same types and have defaults of these
(`Stage.PlainTyped`). And in every spec a default is of the type that the spec declares, as long as
none is set in a spec that declares another type than the composed one (`Stage.WellTyped`,
`Operation.Fits`). Both come from what a single write does to attributes
(`Operation.Writes.leaves_or_revises`); `Stage.attribute_types` puts them together.
-/

namespace LayeredShading

open Opinion

/-! ## What specs say about attributes -/

namespace Stage

/-- What the spec at a path in a layer says about an attribute. -/
def attributeSpec? (stage : Stage) (place : Nat) (site : PrimPath) (name : String) :
    Option AttributeSpec := do
  (← stage.spec? place site).attributes.get? name

/-- The specs at a path declare the same type for the same attribute. -/
def AgreesAt (stage : Stage) (site : PrimPath) : Prop :=
  ∀ name place other own another, stage.attributeSpec? place site name = some own →
    stage.attributeSpec? other site name = some another → own.type = another.type

/-- Defaults at a path are of the types that their specs declare. -/
def TypedAt (stage : Stage) (site : PrimPath) : Prop :=
  ∀ name place own value, stage.attributeSpec? place site name = some own →
    own.default = some value → value.type = own.type

variable {stage later : Stage} {place : Nat} {site : PrimPath} {name : String}
  {own : AttributeSpec}

theorem attribute_spec_eq_some_iff : stage.attributeSpec? place site name = some own ↔
    ∃ spec, stage.spec? place site = some spec ∧ spec.attributes.get? name = some own := by
  rw [attributeSpec?, Option.bind_eq_bind, Option.bind_eq_some_iff]

/-- An opinion says what a spec of the stage says. -/
theorem exists_attribute_spec_of_mem_gather {path : PrimPath} {opinion : Opinion}
    (hopinion : opinion ∈ gather stage.layers path)
    (hown : opinion.spec.attributes.get? name = some own) :
    ∃ place, stage.attributeSpec? place opinion.site name = some own := by
  obtain ⟨hlayer, hspec⟩ := authored_of_mem_gather hopinion
  obtain ⟨place, hplace, hsame⟩ := List.mem_iff_getElem.mp hlayer
  refine ⟨place, attribute_spec_eq_some_iff.mpr ⟨opinion.spec, ?_, hown⟩⟩
  exact spec_eq_some_iff.mpr ⟨hplace, hsame ▸ hspec⟩

end Stage

namespace Stage

section Compose

variable {stage : Stage} {path : PropertyPath} {own : AttributeSpec}

/-- Only composed prims have composed attributes. -/
theorem has_prim_of_attribute {composed : ComposedAttribute}
    (h : stage.attribute? path = some composed) : stage.hasPrim path.prim = true := by
  obtain ⟨prim, hprim, -⟩ := attribute_eq_some_iff.mp h
  exact Option.isSome_of_eq_some hprim

/-- The composed type of an attribute is the one that the specs at the path of the prim itself
agree on. -/
theorem AgreesAt.exists_composed (h : stage.AgreesAt path.prim)
    (hprim : stage.hasPrim path.prim = true) (hname : isPropertyName path.name = true) {place : Nat}
    (hown : stage.attributeSpec? place path.prim path.name = some own) :
    ∃ composed, stage.attribute? path = some composed ∧ composed.type = own.type := by
  obtain ⟨hroot, hplain, -⟩ := compose_is_some_iff.mp hprim
  obtain ⟨spec, hspec, hattribute⟩ := attribute_spec_eq_some_iff.mp hown
  obtain ⟨hplace, hlayer⟩ := spec_eq_some_iff.mp hspec
  let opinion : Opinion := ⟨stage.layers[place], path.prim, spec, .identity⟩
  have hopinion : opinion ∈ atSite stage.layers .identity path.prim :=
    mem_at_site.mpr ⟨List.getElem_mem hplace, rfl, hlayer, rfl⟩
  -- The first of the opinions there that declares the attribute has the type of all of them.
  let declared (opinion : Opinion) : Option ValueType :=
    (opinion.spec.attributes.get? path.name).map (·.type)
  obtain ⟨type, htype⟩ : ∃ type,
      (atSite stage.layers .identity path.prim).findSome? declared = some type :=
    Option.isSome_iff_exists.mp (List.findSome?_isSome_iff.mpr
      ⟨opinion, hopinion, by simp [declared, opinion, hattribute]⟩)
  obtain ⟨first, hfirst, hdeclared⟩ := List.exists_of_findSome?_eq_some htype
  obtain ⟨rest, hgather⟩ := exists_gather_eq_append stage.layers path.prim
  obtain ⟨another, hanother, rfl⟩ := Option.map_eq_some_iff.mp hdeclared
  have hsite : first.site = path.prim := (mem_at_site.mp hfirst).2.1
  obtain ⟨other, hother⟩ := exists_attribute_spec_of_mem_gather
    (hgather ▸ List.mem_append_left rest hfirst) hanother
  have hagree : another.type = own.type := h _ _ _ _ _ (hsite ▸ hother) hown
  have hcomposed : (stage.attribute? path).map (·.type) = some another.type := by
    rw [attribute_type_eq hroot hplain hname, hgather, List.findSome?_append, htype,
      Option.some_or]
  obtain ⟨composed, hfound, hsame⟩ := Option.map_eq_some_iff.mp hcomposed
  exact ⟨composed, hfound, hsame.trans hagree⟩

end Compose

end Stage

/-! ## What a write does to attributes -/

namespace Stage

variable {stage : Stage} {place : Nat} {site : PrimPath} {specifier : Specifier}
  {change : PrimSpec → PrimSpec} {name : String} {edit : AttributeSpec → AttributeSpec}

/-- A spec that is not there says what a blank one says. -/
theorem attribute_spec_eq (stage : Stage) (place : Nat) (site : PrimPath) (name : String)
    (specifier : Specifier) : stage.attributeSpec? place site name =
      ((stage.spec? place site).getD (.blank specifier)).attributes.get? name := by
  rw [attributeSpec?]
  cases stage.spec? place site with
  | none => rfl
  | some spec => rfl

/-- A change beside attributes leaves what is said about them. -/
theorem attribute_spec_changed_of_eq (hplace : place < stage.layers.length)
    (hchange : ∀ spec, (change spec).attributes = spec.attributes) (other : Nat) (path : PrimPath)
    (key : String) : (stage.changed place site specifier change).attributeSpec? other path key =
      stage.attributeSpec? other path key := by
  rw [attributeSpec?, spec_changed hplace]
  split
  next hhere =>
    obtain ⟨rfl, rfl⟩ := hhere
    rw [attribute_spec_eq stage other path key specifier]
    exact congrArg (SortedMap.get? · key) (hchange _)
  next => rfl

/-- A change of an attribute leaves what is said about others and elsewhere. -/
theorem attribute_spec_changed (hplace : place < stage.layers.length) (declared : AttributeSpec)
    (other : Nat) (path : PrimPath) (key : String) :
    (stage.changed place site specifier fun spec =>
        spec.changeAttribute name declared edit).attributeSpec? other path key =
      if other = place ∧ path = site ∧ key = name then
        some (edit ((stage.attributeSpec? place site name).getD declared))
      else stage.attributeSpec? other path key := by
  by_cases hhere : other = place ∧ path = site
  · obtain ⟨rfl, rfl⟩ := hhere
    rw [attributeSpec?, spec_changed hplace, if_pos ⟨rfl, rfl⟩,
      attribute_spec_eq stage other path name specifier,
      attribute_spec_eq stage other path key specifier]
    simp only [true_and]
    exact SortedMap.get?_update _ _ _ _ _
  · rw [attributeSpec?, spec_changed hplace, if_neg hhere, if_neg fun h => hhere ⟨h.1, h.2.1⟩]
    rfl

/-- An attribute is amended where a spec says something about it. -/
theorem attribute_spec_amended (other : Nat) (path : PrimPath) (key : String) :
    (stage.amended place site fun spec =>
        spec.changeOwnAttribute name edit).attributeSpec? other path key =
      if other = place ∧ path = site ∧ key = name then
        (stage.attributeSpec? place site name).map edit
      else stage.attributeSpec? other path key := by
  by_cases hhere : other = place ∧ path = site
  · obtain ⟨rfl, rfl⟩ := hhere
    rw [attributeSpec?, spec_amended, if_pos ⟨rfl, rfl⟩, attributeSpec?, attributeSpec?]
    simp only [true_and]
    cases stage.spec? other path with
    | none => simp
    | some spec => exact SortedMap.get?_modify _ _ _ _
  · rw [attributeSpec?, spec_amended, if_neg hhere, if_neg fun h => hhere ⟨h.1, h.2.1⟩]
    rfl

/-- Amending beside attributes leaves what is said about them. -/
theorem attribute_spec_amended_of_eq (hchange : ∀ spec, (change spec).attributes = spec.attributes)
    (other : Nat) (path : PrimPath) (key : String) :
    (stage.amended place site change).attributeSpec? other path key =
      stage.attributeSpec? other path key := by
  rw [attributeSpec?, spec_amended]
  split
  next hhere =>
    obtain ⟨rfl, rfl⟩ := hhere
    rw [attributeSpec?]
    cases stage.spec? other path with
    | none => rfl
    | some spec => exact congrArg (SortedMap.get? · key) (hchange spec)
  next => rfl

end Stage

namespace Operation

variable {operation : Operation} {stage later : Stage} {path : PropertyPath}

/-- What a write makes of what a spec says about an attribute, which was `before`: a declared type
stays, a new declaration takes over the composed type, and a new default is of the composed type. -/
structure Revises (operation : Operation) (stage : Stage) (path : PropertyPath)
    (before : Option AttributeSpec) (own : AttributeSpec) : Prop where
  attribute_eq : operation.attribute? = some path
  type_eq : ∀ old, before = some old → own.type = old.type
  type_eq_composed : before = none → stage.hasPrim path.prim = true ∧
    ∀ composed, stage.attribute? path = some composed → own.type = composed.type
  default_eq : ∀ value, own.default = some value →
    (∃ old, before = some old ∧ old.default = some value) ∨
      operation = .setDefault path value ∧
        ∃ composed, stage.attribute? path = some composed ∧ value.type = composed.type

/-- What a spec says about an attribute stays as it is or is revised, and is revised only for the
attribute of the operation in the spec that the target keeps for its prim. -/
def LeavesOrRevises (operation : Operation) (stage later : Stage) (place : Nat) (site : PrimPath)
    (name : String) : Prop :=
  later.attributeSpec? place site name = stage.attributeSpec? place site name ∨
    ∃ path own, place = stage.target.layer ∧ site = stage.target.specPath path.prim ∧
      name = path.name ∧ later.attributeSpec? place site name = some own ∧
      operation.Revises stage path (stage.attributeSpec? place site name) own

/-- A change of an attribute that is declared with the composed type if it is new. -/
theorem leaves_or_revises_changed {type : ValueType} {custom : Bool}
    {edit : AttributeSpec → AttributeSpec} (hlayer : stage.target.layer < stage.layers.length)
    (hattribute : operation.attribute? = some path) (hprim : stage.hasPrim path.prim = true)
    (hcomposed : ∀ composed, stage.attribute? path = some composed → composed.type = type)
    (htype : ∀ own, (edit own).type = own.type)
    (hdefault : ∀ own value, (edit own).default = some value → own.default = some value ∨
      operation = .setDefault path value ∧
        ∃ composed, stage.attribute? path = some composed ∧ value.type = composed.type)
    (place : Nat) (site : PrimPath) (name : String) :
    operation.LeavesOrRevises stage
      (stage.changed stage.target.layer (stage.target.specPath path.prim) .override
        fun spec => spec.changeAttribute path.name (.declare type custom) edit)
      place site name := by
  rw [LeavesOrRevises, Stage.attribute_spec_changed hlayer]
  split
  next hhere =>
    obtain ⟨rfl, rfl, rfl⟩ := hhere
    refine .inr ⟨path, _, rfl, rfl, rfl, rfl, hattribute, fun old hold => ?_, fun hnone => ?_,
      fun value hvalue => (hdefault _ value hvalue).imp_left fun hold => ?_⟩
    · rw [htype, hold, Option.getD_some]
    · refine ⟨hprim, fun composed hfound => ?_⟩
      rw [htype, hnone, hcomposed composed hfound]
      rfl
    · cases hbefore : stage.attributeSpec? stage.target.layer (stage.target.specPath path.prim)
          path.name with
      | none =>
          rw [hbefore] at hold
          cases hold
      | some old => exact ⟨old, rfl, by rwa [hbefore] at hold⟩
  next => exact .inl rfl

/-- A change of an attribute where the spec says something about it, which sets no default. -/
theorem leaves_or_revises_amended {edit : AttributeSpec → AttributeSpec}
    (hattribute : operation.attribute? = some path) (htype : ∀ own, (edit own).type = own.type)
    (hdefault : ∀ own value, (edit own).default = some value → own.default = some value)
    (place : Nat) (site : PrimPath) (name : String) :
    operation.LeavesOrRevises stage
      (stage.amended stage.target.layer (stage.target.specPath path.prim)
        fun spec => spec.changeOwnAttribute path.name edit) place site name := by
  rw [LeavesOrRevises, Stage.attribute_spec_amended]
  split
  next hhere =>
    obtain ⟨rfl, rfl, rfl⟩ := hhere
    cases hbefore : stage.attributeSpec? stage.target.layer (stage.target.specPath path.prim)
        path.name with
    | none => exact .inl rfl
    | some old =>
        refine .inr ⟨path, _, rfl, rfl, rfl, rfl, hattribute, ?_, nofun, fun value hvalue => ?_⟩
        · rintro _ ⟨⟩
          exact htype old
        · exact .inl ⟨old, rfl, hdefault old value hvalue⟩
  next => exact .inl rfl

/-- A change of a declared attribute. -/
theorem leaves_or_revises_declared {composed : ComposedAttribute}
    {edit : AttributeSpec → AttributeSpec} (hlayer : stage.target.layer < stage.layers.length)
    (hattribute : operation.attribute? = some path)
    (hcomposed : stage.attribute? path = some composed) (htype : ∀ own, (edit own).type = own.type)
    (hdefault : ∀ own value, (edit own).default = some value → own.default = some value ∨
      operation = .setDefault path value ∧ value.type = composed.type)
    (place : Nat) (site : PrimPath) (name : String) :
    operation.LeavesOrRevises stage
      (stage.changed stage.target.layer (stage.target.specPath path.prim) .override
        fun spec => spec.changeAttribute path.name (.declare composed.type composed.custom) edit)
      place site name := by
  refine leaves_or_revises_changed hlayer hattribute (Stage.has_prim_of_attribute hcomposed)
    (fun another hanother => ?_) htype (fun own value hvalue => ?_) place site name
  · rw [Option.some.inj (hanother.symm.trans hcomposed)]
  · exact (hdefault own value hvalue).imp_right fun ⟨hset, hsame⟩ => ⟨hset, _, hcomposed, hsame⟩

/-- What an operation makes leaves or revises what specs say about attributes. -/
theorem Makes.leaves_or_revises {prim : PrimPath} {specifier : Specifier}
    {change : PrimSpec → PrimSpec} (h : operation.Makes stage prim specifier change)
    (hlayer : stage.target.layer < stage.layers.length) (place : Nat) (site : PrimPath)
    (name : String) :
    operation.LeavesOrRevises stage
      (stage.changed stage.target.layer (stage.target.specPath prim) specifier change)
      place site name := by
  cases h with
  | createAttribute hcomposes hagrees =>
      refine leaves_or_revises_changed hlayer ?_ hcomposes hagrees ?_ ?_ place site name
      · rfl
      · exact fun _ => rfl
      · exact fun _ _ => .inl
  | setDefault hcomposed htype =>
      refine leaves_or_revises_declared hlayer ?_ hcomposed ?_ ?_ place site name
      · rfl
      · exact fun _ => rfl
      · intro own value hvalue
        obtain rfl := Option.some.inj hvalue
        exact .inr ⟨rfl, htype⟩
  | setConnections hcomposed | addConnection hcomposed =>
      refine leaves_or_revises_declared hlayer ?_ hcomposed ?_ ?_ place site name
      · rfl
      · exact fun _ => rfl
      · exact fun _ _ => .inl
  | definePrim | defineAbove | overridePrim | addReference | setSpecializes | addVariantSet
  | addVariant | selectVariant =>
      refine .inl (Stage.attribute_spec_changed_of_eq hlayer ?_ place site name)
      exact fun _ => rfl

/-- What an operation amends leaves or revises what specs say about attributes. -/
theorem Amends.leaves_or_revises {prim : PrimPath} {change : PrimSpec → PrimSpec}
    (h : operation.Amends prim change) (stage : Stage) (place : Nat) (site : PrimPath)
    (name : String) :
    operation.LeavesOrRevises stage
      (stage.amended stage.target.layer (stage.target.specPath prim) change) place site name := by
  cases h with
  | clearDefault =>
      refine leaves_or_revises_amended ?_ ?_ ?_ place site name
      · rfl
      · exact fun _ => rfl
      · rintro _ _ ⟨⟩
  | clearConnections =>
      refine leaves_or_revises_amended ?_ ?_ ?_ place site name
      · rfl
      · exact fun _ => rfl
      · exact fun _ _ => id
  | clearSpecializes | clearSelection =>
      refine .inl (Stage.attribute_spec_amended_of_eq ?_ place site name)
      exact fun _ => rfl

/-- A write leaves or revises what specs say about attributes. -/
theorem Writes.leaves_or_revises (h : operation.Writes stage later) (place : Nat) (site : PrimPath)
    (name : String) : operation.LeavesOrRevises stage later place site name := by
  cases h with
  | made hmakes hlayer => exact hmakes.leaves_or_revises hlayer place site name
  | amended hamends => exact hamends.leaves_or_revises stage place site name

end Operation

/-! ## What writes keep -/

namespace Stage

/-- At the paths of prims themselves the specs of all layers declare the same types and have
defaults of these. -/
structure PlainTyped (stage : Stage) : Prop where
  agrees : ∀ site, site.hasChoices = false → stage.AgreesAt site
  typed : ∀ site, site.hasChoices = false → stage.TypedAt site

/-- Every default is of the type that its spec declares. -/
def WellTyped (stage : Stage) : Prop := ∀ site, stage.TypedAt site

/-- A default of the composed type of an attribute is of the type that the spec declares which the
target keeps for the prim, if it declares any. -/
def SuitsSpec (stage : Stage) (path : PropertyPath) (value : Value) : Prop :=
  ∀ own ∈ stage.attributeSpec? stage.target.layer (stage.target.specPath path.prim) path.name,
    (stage.attribute? path).map (·.type) = some value.type → value.type = own.type

instance (stage : Stage) (path : PropertyPath) (value : Value) :
    Decidable (stage.SuitsSpec path value) :=
  inferInstanceAs (Decidable (∀ own ∈ _, _ → _))

variable {operation : Operation} {stage later : Stage} {site : PrimPath} {path : PropertyPath}

/-- A plain path that the target keeps for a composed prim is that of the prim. -/
theorem prim_eq_of_spec_path_plain {prim : PrimPath} (hprim : stage.hasPrim prim = true)
    (hplain : (stage.target.specPath prim).hasChoices = false) :
    stage.target.specPath prim = prim := by
  obtain ⟨-, hprimPlain, -⟩ := compose_is_some_iff.mp hprim
  by_contra hother
  rw [EditTarget.has_choices_spec_path hprimPlain hother] at hplain
  cases hplain

/-- Where specs agree they declare the composed type. -/
theorem AgreesAt.suits_spec (h : stage.AgreesAt (stage.target.specPath path.prim))
    (hplain : (stage.target.specPath path.prim).hasChoices = false)
    (hname : isPropertyName path.name = true) (value : Value) : stage.SuitsSpec path value := by
  intro own hown htype
  obtain ⟨composed, hcomposed, htype⟩ := Option.map_eq_some_iff.mp htype
  have hprim := has_prim_of_attribute hcomposed
  have hhere := prim_eq_of_spec_path_plain hprim hplain
  rw [hhere] at h hown
  obtain ⟨found, hfound, hsame⟩ := h.exists_composed hprim hname hown
  rw [← htype, ← hsame, Option.some.inj (hfound.symm.trans hcomposed)]

/-- A write keeps the types of defaults, as long as a default that is set suits the spec. -/
theorem TypedAt.of_writes (h : stage.TypedAt site) (hwrite : operation.Writes stage later)
    (hsuits : ∀ path value, operation = .setDefault path value →
      site = stage.target.specPath path.prim → stage.SuitsSpec path value) :
    later.TypedAt site := by
  intro name place own value hown hvalue
  rcases hwrite.leaves_or_revises place site name with
    hsame | ⟨path, revised, rfl, rfl, rfl, hlater, hrevises⟩
  · exact h name place own value (hsame ▸ hown) hvalue
  · obtain rfl := Option.some.inj (hlater.symm.trans hown)
    rcases hrevises.default_eq value hvalue with
      ⟨old, hold, hdefault⟩ | ⟨hset, composed, hcomposed, htype⟩
    · rw [hrevises.type_eq old hold]
      exact h _ _ old value hold hdefault
    · cases hbefore : stage.attributeSpec? stage.target.layer
          (stage.target.specPath path.prim) path.name with
      | none => rw [htype, (hrevises.type_eq_composed hbefore).2 composed hcomposed]
      | some old =>
          rw [hrevises.type_eq old hbefore]
          refine hsuits path value hset rfl old hbefore ?_
          rw [hcomposed, Option.map_some, htype]

/-- A write keeps the specs of prims themselves in agreement. -/
theorem AgreesAt.of_writes (h : stage.AgreesAt site) (hproper : operation.Proper)
    (hplain : site.hasChoices = false) (hwrite : operation.Writes stage later) :
    later.AgreesAt site := by
  intro name place other own another hown hanother
  -- A type is one that was declared before, or is new and that of all declared before.
  have hcases : ∀ place own, later.attributeSpec? place site name = some own →
      (∃ old, stage.attributeSpec? place site name = some old ∧ own.type = old.type) ∨
        place = stage.target.layer ∧
          ∀ other old, stage.attributeSpec? other site name = some old → own.type = old.type := by
    intro place own hown
    rcases hwrite.leaves_or_revises place site name with
      hsame | ⟨path, revised, rfl, rfl, rfl, hlater, hrevises⟩
    · exact .inl ⟨own, hsame ▸ hown, rfl⟩
    · obtain rfl := Option.some.inj (hlater.symm.trans hown)
      cases hbefore : stage.attributeSpec? stage.target.layer
          (stage.target.specPath path.prim) path.name with
      | some old => exact .inl ⟨old, rfl, hrevises.type_eq old hbefore⟩
      | none =>
          refine .inr ⟨rfl, fun other old hold => ?_⟩
          obtain ⟨hprim, htype⟩ := hrevises.type_eq_composed hbefore
          have hhere := prim_eq_of_spec_path_plain hprim hplain
          rw [hhere] at h hold
          obtain ⟨composed, hcomposed, hsame⟩ :=
            h.exists_composed hprim (hproper path hrevises.attribute_eq) hold
          exact (htype composed hcomposed).trans hsame
  rcases hcases place own hown with ⟨old, hold, htype⟩ | ⟨hplace, hnew⟩
  · rcases hcases other another hanother with ⟨older, holder, hsame⟩ | ⟨-, hnew⟩
    · rw [htype, hsame]
      exact h name place other old older hold holder
    · rw [htype, hnew place old hold]
  · rcases hcases other another hanother with ⟨older, holder, hsame⟩ | ⟨hother, -⟩
    · rw [hsame, hnew other older holder]
    · rw [hplace] at hown
      rw [hother] at hanother
      rw [Option.some.inj (hown.symm.trans hanother)]

/-- A write keeps what specs of prims themselves have in common. -/
theorem PlainTyped.of_writes (h : stage.PlainTyped) (hproper : operation.Proper)
    (hwrite : operation.Writes stage later) : later.PlainTyped where
  agrees site hplain := (h.agrees site hplain).of_writes hproper hplain hwrite
  typed site hplain := by
    refine (h.typed site hplain).of_writes hwrite ?_
    rintro path value rfl rfl
    exact (h.agrees _ hplain).suits_spec hplain (hproper path rfl) value

end Stage

/-! ## Runs -/

/-- The operation of an action names properties. -/
def Action.Proper : Action → Prop
  | author operation => operation.Proper
  | addSublayer _ | setTarget _ => True

/-- A default that is set suits the spec that it is set in. -/
def Operation.Fits (stage : Stage) : Operation → Prop
  | setDefault path value => stage.SuitsSpec path value
  | _ => True

def Action.Fits (stage : Stage) : Action → Prop
  | author operation => operation.Fits stage
  | addSublayer _ | setTarget _ => True

namespace Stage

/-- The stage after actions, whether or not they fail. -/
def afterActions (stage : Stage) (actions : List Action) : Stage :=
  actions.foldl (fun between action => between.after action.run) stage

/-- Every action of a run fits the stage that it starts from. -/
def Fitting : Stage → List Action → Prop
  | _, [] => True
  | stage, action :: rest => action.Fits stage ∧ Fitting (stage.after action.run) rest

variable {stage : Stage} {action : Action} {actions : List Action}

theorem after_actions_append (first second : List Action) :
    stage.afterActions (first ++ second) = (stage.afterActions first).afterActions second :=
  List.foldl_append

/-- New sublayers and changes of the target leave all specs as they are. -/
theorem authors_or_leaves_specs (stage : Stage) (action : Action) :
    (∃ operation, action = .author operation) ∨
      ∀ place site, (stage.after action.run).spec? place site = stage.spec? place site := by
  cases action with
  | author operation => exact .inl ⟨operation, rfl⟩
  | addSublayer identifier =>
      refine .inr fun place site => ?_
      have hlayers : (stage.after (Action.addSublayer identifier).run).layers =
          stage.layers ++ [Layer.blank identifier] := rfl
      rw [spec?, spec?, hlayers, List.getElem?_append]
      split
      next => rfl
      next hplace =>
        rw [List.getElem?_eq_none (Nat.le_of_not_lt hplace)]
        cases place - stage.layers.length <;> rfl
  | setTarget target =>
      refine .inr fun place site => ?_
      rw [Action.run, Edit.after_set_target]
      split <;> rfl

/-- New sublayers and changes of the target leave what specs say about attributes. -/
theorem authors_or_leaves (stage : Stage) (action : Action) :
    (∃ operation, action = .author operation) ∨ ∀ place site name,
      (stage.after action.run).attributeSpec? place site name =
        stage.attributeSpec? place site name := by
  refine (authors_or_leaves_specs stage action).imp_right fun hspecs place site name => ?_
  rw [attributeSpec?, attributeSpec?, hspecs]

/-- What specs of prims themselves have in common is kept by every action. -/
theorem PlainTyped.after (h : stage.PlainTyped) (hproper : action.Proper) :
    (stage.after action.run).PlainTyped := by
  rcases authors_or_leaves stage action with ⟨operation, rfl⟩ | hsame
  · exact Operation.after_of_writes PlainTyped h
      fun _ _ hbetween hwrite => hbetween.of_writes hproper hwrite
  · exact ⟨by simpa only [AgreesAt, hsame] using h.agrees,
      by simpa only [TypedAt, hsame] using h.typed⟩

/-- Setting a default writes once or not at all. -/
theorem writes_or_eq_after_set_default (stage : Stage) (path : PropertyPath) (value : Value) :
    stage.after (Edit.setDefault path value) = stage ∨
      (Operation.setDefault path value).Writes stage
        (stage.after (Edit.setDefault path value)) := by
  refine (Edit.reads_only_require_attribute path).after_bind_of
    (fun later => later = stage ∨ (Operation.setDefault path value).Writes stage later) (.inl rfl)
    fun composed hrun => ?_
  split
  next => exact .inl rfl
  next htype =>
    rw [Edit.after_change_spec]
    split
    next hlayer =>
      exact .inr (.made (.setDefault (Edit.run_require_attribute_eq_ok.mp hrun).1
        (not_not.mp htype)) hlayer)
    next => exact .inl rfl

/-- Defaults stay of the types that their specs declare under every operation that fits. -/
theorem WellTyped.after_operation {operation : Operation} (h : stage.WellTyped)
    (hfits : operation.Fits stage) : (stage.after operation.run).WellTyped := by
  by_cases hset : ∃ path value, operation = .setDefault path value
  · obtain ⟨path, value, rfl⟩ := hset
    rcases writes_or_eq_after_set_default stage path value with hsame | hwrite
    · rw [Operation.run, hsame]
      exact h
    · intro site
      refine (h site).of_writes hwrite ?_
      rintro _ _ ⟨⟩ -
      exact hfits
  · exact Operation.after_of_writes WellTyped h fun _ _ hbetween hwrite site =>
      (hbetween site).of_writes hwrite fun path value hsame _ => absurd ⟨path, value, hsame⟩ hset

theorem WellTyped.after (h : stage.WellTyped) (hfits : action.Fits stage) :
    (stage.after action.run).WellTyped := by
  rcases authors_or_leaves stage action with ⟨operation, rfl⟩ | hsame
  · exact h.after_operation hfits
  · simpa only [WellTyped, TypedAt, hsame] using h

theorem PlainTyped.after_actions (h : stage.PlainTyped)
    (hproper : ∀ action ∈ actions, action.Proper) : (stage.afterActions actions).PlainTyped := by
  induction actions generalizing stage with
  | nil => exact h
  | cons action rest ih =>
      obtain ⟨hfirst, hrest⟩ := List.forall_mem_cons.mp hproper
      exact ih (h.after hfirst) hrest

theorem WellTyped.after_actions (h : stage.WellTyped) (hfitting : stage.Fitting actions) :
    (stage.afterActions actions).WellTyped := by
  induction actions generalizing stage with
  | nil => exact h
  | cons action rest ih => exact ih (h.after hfitting.1) hfitting.2

/-- A blank stage says nothing about attributes. -/
theorem attribute_spec_blank (place : Nat) (site : PrimPath) (name : String) :
    blank.attributeSpec? place site name = none := by
  cases place <;> rfl

end Stage

/-- Whatever is authored comes down to actions: each program runs some on the stage that it is
given, and which ones may depend on the stage. -/
theorem Edit.Authored.exists_actions {α : Type} {program : Edit α} (h : program.Authored)
    (stage : Stage) : ∃ actions : List Action, (∀ action ∈ actions, action.Proper) ∧
      stage.after program = stage.afterActions actions := by
  induction h generalizing stage with
  | pure | throw | get => exact ⟨[], List.forall_mem_nil _, rfl⟩
  | @operation operation hproper =>
      exact ⟨[.author operation], List.forall_mem_singleton.mpr hproper, rfl⟩
  | addSublayer identifier =>
      exact ⟨[.addSublayer identifier], List.forall_mem_singleton.mpr trivial, rfl⟩
  | setTarget target =>
      exact ⟨[.setTarget target], List.forall_mem_singleton.mpr trivial, rfl⟩
  | @bind _ _ program next _ _ hprogram hnext =>
      obtain ⟨first, hfirst, hbetween⟩ := hprogram stage
      rw [after_bind]
      cases hrun : program.run stage with
      | error error later =>
          rw [after_of_error hrun] at hbetween
          exact ⟨first, hfirst, hbetween⟩
      | ok value later =>
          rw [after_of_ok hrun] at hbetween
          obtain ⟨second, hsecond, hlater⟩ := hnext stage value later hrun later
          refine ⟨first ++ second, List.forall_mem_append.mpr ⟨hfirst, hsecond⟩, ?_⟩
          rw [Stage.after_actions_append, ← hbetween]
          exact hlater
  | @tryCatch _ program handler _ _ hprogram hhandler =>
      obtain ⟨first, hfirst, hbetween⟩ := hprogram stage
      rw [Stage.after, run_try_catch]
      cases hrun : program.run stage with
      | ok value later =>
          rw [after_of_ok hrun] at hbetween
          exact ⟨first, hfirst, hbetween⟩
      | error error later =>
          rw [after_of_error hrun] at hbetween
          obtain ⟨second, hsecond, hlater⟩ := hhandler error later
          refine ⟨first ++ second, List.forall_mem_append.mpr ⟨hfirst, hsecond⟩, ?_⟩
          rw [Stage.after_actions_append, ← hbetween]
          exact hlater

namespace Stage

variable {stage : Stage} {path : PropertyPath} {composed : ComposedAttribute}

/-- The default of a composed attribute is that of the strongest opinion which has one. -/
theorem exists_opinion_of_default (h : stage.attribute? path = some composed) {value : Value}
    (hvalue : composed.default = some value) :
    ∃ stronger opinion weaker own,
      gather stage.layers path.prim = stronger ++ opinion :: weaker ∧
        opinion.spec.attributes.get? path.name = some own ∧ own.default = some value ∧
        ∀ other ∈ stronger, (other.spec.attributes.get? path.name).bind (·.default) = none := by
  obtain ⟨hroot, hplain, -⟩ := compose_is_some_iff.mp (has_prim_of_attribute h)
  obtain ⟨hname, -⟩ := exists_spec_of_attribute (Option.isSome_of_eq_some h)
  have hdefault : (stage.attribute? path).bind (·.default) = _ :=
    attribute_default_of_compose hroot hplain path.name
  have hfield : (fun opinion : Opinion => (opinion.attribute? path.name).bind (·.default)) =
      fun opinion => (opinion.spec.attributes.get? path.name).bind (·.default) := by
    funext opinion
    rw [attribute_eq, if_pos hname]
    cases opinion.spec.attributes.get? path.name <;> rfl
  rw [h, Option.bind_some, hvalue, hfield] at hdefault
  obtain ⟨stronger, opinion, weaker, hgather, hfound, hstronger⟩ :=
    List.findSome?_eq_some_iff.mp hdefault.symm
  obtain ⟨own, hown, hauthored⟩ := Option.bind_eq_some_iff.mp hfound
  exact ⟨stronger, opinion, weaker, own, hgather, hown, hauthored, hstronger⟩

/-- Types of attributes. After any actions on a blank stage, to which all programs that author come
down (`Edit.Authored.exists_actions`), over all layers the specs at the path of a prim itself
declare the same types and have defaults of these. A composed attribute has the type of the
strongest opinion on it and the default of the strongest opinion that has one; the default is of
that type if it comes from the path of the prim itself. If no default of the composed type has been
set in a spec that declares another one, then all defaults of specs are of the types that these
declare, and so is every composed default of the type that its own opinion declares. -/
theorem attribute_types {actions : List Action} (hproper : ∀ action ∈ actions, action.Proper)
    (hstage : blank.afterActions actions = stage) :
    (∀ site, site.hasChoices = false → stage.AgreesAt site ∧ stage.TypedAt site) ∧
      (∀ path composed, stage.attribute? path = some composed →
        ((gather stage.layers path.prim).findSome? fun opinion =>
            (opinion.spec.attributes.get? path.name).map (·.type)) = some composed.type ∧
          ∀ value, composed.default = some value → ∃ stronger opinion weaker own,
            gather stage.layers path.prim = stronger ++ opinion :: weaker ∧
              opinion.spec.attributes.get? path.name = some own ∧ own.default = some value ∧
              (∀ other ∈ stronger,
                (other.spec.attributes.get? path.name).bind (·.default) = none) ∧
              (opinion.site = path.prim → value.type = composed.type) ∧
              (blank.Fitting actions → value.type = own.type)) ∧
      (blank.Fitting actions → stage.WellTyped) := by
  have hplain : stage.PlainTyped := by
    rw [← hstage]
    refine PlainTyped.after_actions ⟨?_, ?_⟩ hproper
    · intro site _ name place other own another hown
      rw [attribute_spec_blank] at hown
      cases hown
    · intro site _ name place own value hown
      rw [attribute_spec_blank] at hown
      cases hown
  have htyped : blank.Fitting actions → stage.WellTyped := by
    intro hfitting
    rw [← hstage]
    refine WellTyped.after_actions ?_ hfitting
    intro site name place own value hown
    rw [attribute_spec_blank] at hown
    cases hown
  refine ⟨fun site hsite => ⟨hplain.agrees site hsite, hplain.typed site hsite⟩, ?_, htyped⟩
  intro path composed hcomposed
  have hprim := has_prim_of_attribute hcomposed
  obtain ⟨hroot, hchoices, -⟩ := compose_is_some_iff.mp hprim
  obtain ⟨hname, -⟩ := exists_spec_of_attribute (Option.isSome_of_eq_some hcomposed)
  refine ⟨?_, fun value hvalue => ?_⟩
  · rw [← attribute_type_eq hroot hchoices hname, hcomposed, Option.map_some]
  obtain ⟨stronger, opinion, weaker, own, hgather, hown, hdefault, hstronger⟩ :=
    exists_opinion_of_default hcomposed hvalue
  obtain ⟨place, hspec⟩ := exists_attribute_spec_of_mem_gather
    (hgather ▸ List.mem_append_right stronger List.mem_cons_self) hown
  refine ⟨stronger, opinion, weaker, own, hgather, hown, hdefault, hstronger, ?_, ?_⟩
  · intro hsite
    rw [hsite] at hspec
    obtain ⟨found, hfound, htype⟩ :=
      (hplain.agrees path.prim hchoices).exists_composed hprim hname hspec
    rw [hplain.typed path.prim hchoices _ _ own value hspec hdefault, ← htype,
      Option.some.inj (hfound.symm.trans hcomposed)]
  · intro hfitting
    exact htyped hfitting opinion.site _ _ own value hspec hdefault

/-- A material with an attribute and a selected variant, in which its default is set. -/
def tintInLook : List Action := [
  .author (.definePrim ⟨[.plain "M"]⟩ (some "Material")),
  .author (.createAttribute ⟨⟨[.plain "M"]⟩, "tint"⟩ .int true),
  .author (.addVariant ⟨[.plain "M"]⟩ ⟨"look", "red"⟩),
  .author (.selectVariant ⟨[.plain "M"]⟩ ⟨"look", "red"⟩),
  .setTarget ((EditTarget.ofLayer 0).redirect ⟨[.plain "M"]⟩ ⟨"look", "red"⟩),
  .author (.setDefault ⟨⟨[.plain "M"]⟩, "tint"⟩ (.int 7))]

/-- The default composes from the variant, where it is of the declared type. -/
theorem tint_in_look_typed :
    blank.Fitting tintInLook ∧
      ((blank.afterActions tintInLook).attribute? ⟨⟨[.plain "M"]⟩, "tint"⟩).bind (·.default) =
        some (.int 7) ∧
      ∃ own, (blank.afterActions tintInLook).attributeSpec? 0 ⟨[⟨"M", [⟨"look", "red"⟩]⟩]⟩ "tint" =
        some own ∧ own.default = some (.int 7) ∧ (Value.int 7).type = own.type := by
  have hproper : ∀ action ∈ tintInLook, action.Proper := by
    simp only [tintInLook, List.forall_mem_cons]
    refine ⟨nofun, ?_, nofun, nofun, trivial, ?_, List.forall_mem_nil _⟩
    all_goals
      rintro _ ⟨⟩
      decide
  have hfitting : blank.Fitting tintInLook := by
    refine ⟨trivial, trivial, trivial, trivial, trivial, ?_, trivial⟩
    show SuitsSpec _ _ _
    decide
  obtain ⟨-, -, htyped⟩ := attribute_types hproper rfl
  refine ⟨hfitting, by decide, _, rfl, rfl, ?_⟩
  exact htyped hfitting ⟨[⟨"M", [⟨"look", "red"⟩]⟩]⟩ "tint" 0 _ _ rfl rfl

/-- A material with an attribute of its own and a reference to a prim that has a default for one of
the same name and another type. -/
def borrowedDefault : List Action := [
  .author (.definePrim ⟨[.plain "T"]⟩ none),
  .author (.createAttribute ⟨⟨[.plain "T"]⟩, "tint"⟩ .token true),
  .author (.setDefault ⟨⟨[.plain "T"]⟩, "tint"⟩ (.token "red")),
  .author (.definePrim ⟨[.plain "M"]⟩ (some "Material")),
  .author (.createAttribute ⟨⟨[.plain "M"]⟩, "tint"⟩ .int true),
  .author (.addReference ⟨[.plain "M"]⟩ ⟨[.plain "T"]⟩)]

/-- The composed attribute has its own type and the default of the other. -/
theorem borrowed_default_of_other_type :
    (∀ action ∈ borrowedDefault, action.Proper) ∧ blank.Fitting borrowedDefault ∧
      ∃ composed, (blank.afterActions borrowedDefault).attribute? ⟨⟨[.plain "M"]⟩, "tint"⟩ =
        some composed ∧ composed.type = .int ∧ composed.default = some (.token "red") := by
  refine ⟨?_, ⟨trivial, trivial, ?_, trivial, trivial, trivial, trivial⟩, _, rfl, rfl, rfl⟩
  · simp only [borrowedDefault, List.forall_mem_cons]
    refine ⟨nofun, ?_, ?_, nofun, ?_, nofun, List.forall_mem_nil _⟩
    all_goals
      rintro _ ⟨⟩
      decide
  · show SuitsSpec _ _ _
    decide

end Stage

end LayeredShading
