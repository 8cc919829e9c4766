import LayeredShading.Proofs.SceneFile.Loading
import LayeredShading.Proofs.SceneFile.Reading

/-!
# Loading what was loaded

A stage that is loaded is regular whatever its description was like: of two prims or attributes of
one name only the later is left, and all come in order. If the numbers of the description are within
range, its defaults fit. So the stage is loaded again from its own description, which is the same
then, and from any text of the value of that description (`Stage.loaded_reloads`).
-/

namespace LayeredShading

/-! ## Lists and maps -/

/-- What is read of a list is read of one of its elements. -/
theorem exists_of_map_m_eq_ok {ε α β : Type} {read : α → Except ε β} {list : List α}
    {images : List β} (h : list.mapM read = .ok images) {image : β} (himage : image ∈ images) :
    ∃ element ∈ list, read element = .ok image := by
  induction list generalizing images with
  | nil =>
      cases h
      cases himage
  | cons head rest ih =>
      rw [List.mapM_cons, except_bind_eq_ok_iff] at h
      obtain ⟨first, hfirst, h⟩ := h
      obtain ⟨others, hothers, h⟩ := except_bind_eq_ok_iff.mp h
      cases h
      rcases List.mem_cons.mp himage with rfl | himage
      · exact ⟨head, List.mem_cons_self, hfirst⟩
      · obtain ⟨element, hmem, hread⟩ := ih hothers himage
        exact ⟨element, List.mem_cons_of_mem _ hmem, hread⟩

/-- A map made of a list has no other entries. -/
theorem SortedMap.mem_of_mem_of_list {κ ν : Type} [Ord κ] [Std.TransOrd κ] [Std.LawfulEqOrd κ]
    {list : List (κ × ν)} {entry : κ × ν} (h : entry ∈ (ofList list).entries) : entry ∈ list := by
  have hfold : ∀ (rest : List (κ × ν)) (map : SortedMap κ ν),
      entry ∈ (rest.foldl (fun map entry => map.insert entry.1 entry.2) map).entries →
        entry ∈ map.entries ∨ entry ∈ rest := by
    intro rest
    induction rest with
    | nil => exact fun _ => .inl
    | cons head rest ih =>
        intro map hmem
        rcases ih _ hmem with hmem | hmem
        · rcases mem_of_mem_insertEntry hmem with rfl | hmem
          · exact .inr List.mem_cons_self
          · exact .inl hmem
        · exact .inr (List.mem_cons_of_mem _ hmem)
  rcases hfold list .empty h with h | h
  · cases h
  · exact h

/-! ## Values -/

/-- The numbers of a value: it itself or the items of an array. -/
def Json.numbers : Json → List JsonNumber
  | .number value => [value]
  | .array items => items.filterMap fun item => match item with
    | .number value => some value
    | _ => none
  | _ => []

/-- The numbers of a value are within the range of the numbers of attributes. -/
def Json.InRange (json : Json) : Prop :=
  ∀ number ∈ json.numbers, (number.toDouble.convert : Numeric.Single).isInfinite = false

instance (json : Json) : Decidable json.InRange :=
  inferInstanceAs (Decidable (∀ number ∈ json.numbers,
    (number.toDouble.convert : Numeric.Single).isInfinite = false))

namespace Value

/-- The numbers that are read of a value within range are finite. -/
theorem single_is_finite {json : Json} (h : json.InRange) {value : Numeric.Single}
    (hread : single? json = some value) : value.isInfinite = false := by
  cases json with
  | number number =>
      obtain rfl := Option.some.inj hread
      exact h number List.mem_cons_self
  | _ => cases hread

theorem singles_are_finite {json : Json} (h : json.InRange) {values : List Numeric.Single}
    (hread : singles? json = some values) : ∀ value ∈ values, value.isInfinite = false := by
  cases json with
  | array items =>
      intro value hvalue
      obtain ⟨item, hitem, hsingle⟩ := exists_of_map_m_eq_some hread hvalue
      cases item with
      | number number =>
          obtain rfl := Option.some.inj hsingle
          exact h number (List.mem_filterMap.mpr ⟨_, hitem, rfl⟩)
      | _ => cases hsingle
  | _ => cases hread

theorem of_json_eq_ok_iff {type : ValueType} {json : Json} {value : Value} :
    ofJson type json = .ok value ↔ ofJson? type json = some value := by
  rw [ofJson]
  split
  next found hfound => simp [hfound]
  next hnone => simp [hnone]

/-- A value that is read is of the type asked for, and finite if its numbers are within range. -/
theorem fits_of_json {type : ValueType} {json : Json} {value : Value} (h : json.InRange)
    (hread : ofJson? type json = some value) : value.type = type ∧ value.isFinite = true := by
  suffices hcomponents : value.type = type ∧
      ∀ component ∈ value.components, component.isInfinite = false by
    simpa [isFinite] using hcomponents
  have hvector : ∀ {values : List Numeric.Single} {value : Value}, singles? json = some values →
      value.components = values → ∀ component ∈ value.components, component.isInfinite = false :=
    fun hvalues hsame => hsame ▸ singles_are_finite h hvalues
  have hnone : ∀ {value : Value}, value.components = [] →
      ∀ component ∈ value.components, component.isInfinite = false :=
    fun hsame _ hmem => absurd (hsame ▸ hmem) List.not_mem_nil
  unfold ofJson? at hread
  split at hread
  case h_5 =>
    obtain ⟨number, -, rfl⟩ := Option.map_eq_some_iff.mp hread
    exact ⟨rfl, hnone rfl⟩
  case h_6 =>
    obtain ⟨number, hnumber, rfl⟩ := Option.map_eq_some_iff.mp hread
    refine ⟨rfl, fun component hcomponent => ?_⟩
    obtain rfl := List.mem_singleton.mp hcomponent
    exact single_is_finite h hnumber
  case h_7 | h_8 | h_9 | h_10 | h_11 =>
    split at hread
    next hvalues =>
      cases hread
      exact ⟨rfl, hvector hvalues rfl⟩
    next => cases hread
  case h_12 => cases hread
  all_goals
    cases hread
    exact ⟨rfl, hnone rfl⟩

/-- A finite value is written as one that is no container, or an array of such, and not as null. -/
theorem flat_to_json {value : Value} (h : value.isFinite = true) :
    JsonTree.Flat value.toJson ∧ value.toJson ≠ .null := by
  have hnumber : ∀ component ∈ value.components,
      ∃ number, singleToJson component = .number number := by
    intro component hcomponent
    have hfinite : component.isInfinite = false := by
      simpa using (List.all_eq_true.mp h) component hcomponent
    obtain ⟨hwidened, -⟩ :=
      Numeric.Binary.convert_convert Numeric.Format.double_widens_single hfinite
    rw [singleToJson, Json.ofDouble, hwidened, if_neg Bool.false_ne_true]
    exact ⟨_, rfl⟩
  have hscalar : ∀ item ∈ value.components.map singleToJson, JsonTree.Scalar item := by
    intro item hitem
    obtain ⟨component, hcomponent, rfl⟩ := List.mem_map.mp hitem
    obtain ⟨number, hwritten⟩ := hnumber component hcomponent
    rw [hwritten]
    exact trivial
  cases value with
  | float x =>
      obtain ⟨number, hwritten⟩ := hnumber x List.mem_cons_self
      rw [show (float x).toJson = .number number from hwritten]
      exact ⟨trivial, Json.noConfusion⟩
  | float2 | float3 | float4 | color3f | normal3f => exact ⟨hscalar, Json.noConfusion⟩
  | _ => exact ⟨trivial, Json.noConfusion⟩

end Value

/-! ## Specs and layers that are read -/

/-- The numbers of the default are within range. -/
def AttributeDescription.InRange (description : AttributeDescription) : Prop :=
  ∀ json ∈ description.default, json.InRange

/-- An attribute that is read has the name of a property and the connections of its description, and
its default fits if the numbers are within range. -/
theorem AttributeDescription.of_to_spec {description : AttributeDescription} {prim : PrimPath}
    {spec : AttributeSpec} (h : description.toSpec prim = .ok spec) :
    isPropertyName description.name = true ∧ spec.connections = description.connections ∧
      (description.InRange → spec.Fits) := by
  rw [toSpec, except_bind_eq_ok_iff] at h
  obtain ⟨path, hpath, h⟩ := h
  have hname : isPropertyName description.name = true := by
    rw [PrimPath.property] at hpath
    split at hpath
    next => cases hpath
    next hproper => simpa using (not_or.mp (mt Bool.or_eq_true_iff.mpr hproper)).2
  split at h
  next => cases h
  next type _ =>
    obtain ⟨default, hdefault, h⟩ := except_bind_eq_ok_iff.mp h
    cases h
    refine ⟨hname, rfl, fun hrange value hvalue => ?_⟩
    obtain rfl : default = some value := hvalue
    cases hwritten : description.default with
    | none =>
        rw [hwritten] at hdefault
        cases hdefault
    | some json =>
        have hread : some <$> Value.ofJson type json = .ok (some value) := by
          rwa [hwritten] at hdefault
        cases hfound : Value.ofJson type json with
        | error error =>
            rw [hfound] at hread
            cases hread
        | ok found =>
            rw [hfound] at hread
            cases hread
            exact Value.fits_of_json (hrange json hwritten) (Value.of_json_eq_ok_iff.mp hfound)

/-- A spec that is read has the paths of its description and attributes that are read, and the keys
of its metadata ascend. -/
structure PrimDescription.Yields (description : PrimDescription) (spec : PrimSpec) : Prop where
  metadata_eq : spec.metadata.entries = description.metadata.entries
  references_eq : spec.references = description.references
  specializes_eq : spec.specializes = description.specializes
  attributes : ∀ entry ∈ spec.attributes.entries, ∃ part ∈ description.attributes,
    part.name = entry.1 ∧ part.toSpec description.path = .ok entry.2

theorem PrimDescription.yields_of_to_spec {description : PrimDescription} {spec : PrimSpec}
    (h : description.toSpec = .ok spec) : description.Yields spec := by
  rw [toSpec, except_bind_eq_ok_iff] at h
  obtain ⟨attributes, hattributes, h⟩ := h
  cases h
  refine ⟨?_, rfl, rfl, fun entry hentry => ?_⟩
  · have hdistinct : (Metadata.mk description.metadata.entries).entries.Pairwise
        fun first second => first.1 ≠ second.1 :=
      description.metadata.sorted.imp fun {first second} hless hsame => by
        simp [hsame, Std.ReflCmp.compare_self] at hless
    exact congrArg Metadata.entries (Metadata.of_list_entries hdistinct)
  · obtain ⟨part, hpart, hread⟩ :=
      exists_of_map_m_eq_ok hattributes (SortedMap.mem_of_mem_of_list hentry)
    obtain ⟨spec, hspec, hsame⟩ := except_bind_eq_ok_iff.mp hread
    cases hsame
    exact ⟨part, hpart, rfl, hspec⟩

/-- The specs of a layer that is read are read of prims of its description. -/
theorem LayerDescription.of_to_layer {description : LayerDescription} {layer : Layer}
    (h : description.toLayer = .ok layer) : ∀ entry ∈ layer.specs.entries,
      entry.1.isRoot = false ∧ ∃ part ∈ description.prims,
        part.path = entry.1 ∧ part.Yields entry.2 := by
  rw [toLayer, except_bind_eq_ok_iff] at h
  obtain ⟨specs, hspecs, h⟩ := h
  cases h
  intro entry hentry
  obtain ⟨part, hpart, hread⟩ := exists_of_map_m_eq_ok hspecs (SortedMap.mem_of_mem_of_list hentry)
  split at hread
  next => cases hread
  next hroot =>
    obtain ⟨spec, hspec, hsame⟩ := except_bind_eq_ok_iff.mp hread
    cases hsame
    exact ⟨Bool.eq_false_iff.mpr hroot, part, hpart, rfl, PrimDescription.yields_of_to_spec hspec⟩

/-! ## Stages that are loaded -/

/-- The numbers of all defaults are within range. -/
def SceneDescription.InRange (description : SceneDescription) : Prop :=
  ∀ layer ∈ description.layers, ∀ prim ∈ layer.prims, ∀ part ∈ prim.attributes, part.InRange

instance (description : SceneDescription) : Decidable description.InRange :=
  inferInstanceAs (Decidable (∀ layer ∈ description.layers, ∀ prim ∈ layer.prims,
    ∀ part ∈ prim.attributes, ∀ json ∈ part.default, json.InRange))

/-- The paths of a description that is read can be spelled. -/
theorem SceneDescription.spellable_of_parse {source : String} {description : SceneDescription}
    (h : parse source = .ok description) : description.Spellable := by
  rw [parse] at h
  split at h
  next hread =>
    cases h
    obtain ⟨tree, -, hread⟩ := Option.bind_eq_some_iff.mp hread
    exact JsonTree.gives_scene_description tree description hread
  next => cases h

/-- The value of a text, with the fields of objects as they are written. -/
def Json.ofText? (text : String) : Option Json := (JsonTree.ofText? text).bind JsonTree.value?

namespace Stage

variable {description : SceneDescription} {stage : Stage}

/-- Every spec of a stage that is loaded is read of a prim of the description. -/
theorem exists_yields_of_loaded (h : ofDescription description = .ok stage) {layer : Layer}
    (hlayer : layer ∈ stage.layers) {entry : PrimPath × PrimSpec}
    (hentry : entry ∈ layer.specs.entries) :
    entry.1.isRoot = false ∧ ∃ source ∈ description.layers, ∃ part ∈ source.prims,
      part.path = entry.1 ∧ part.Yields entry.2 := by
  obtain ⟨layers, hlayers, -, -, rfl⟩ := of_description_eq_ok_iff.mp h
  have hread : layer ∈ layers := by
    cases layers with
    | nil =>
        obtain rfl := List.mem_singleton.mp hlayer
        cases hentry
    | cons first rest => exact hlayer
  obtain ⟨source, hsource, hlayer⟩ := exists_of_map_m_eq_ok hlayers hread
  obtain ⟨hroot, part, hpart, hpath, hyields⟩ := LayerDescription.of_to_layer hlayer entry hentry
  exact ⟨hroot, source, hsource, part, hpart, hpath, hyields⟩

/-- What is loaded is regular. -/
theorem regular_of_loaded (h : ofDescription description = .ok stage) : stage.Regular := by
  refine ⟨?_, fun layer hlayer entry hentry => ?_⟩
  · obtain ⟨layers, -, -, -, rfl⟩ := of_description_eq_ok_iff.mp h
    cases layers <;> exact List.cons_ne_nil _ _
  · obtain ⟨hroot, _, -, part, -, -, hyields⟩ := exists_yields_of_loaded h hlayer hentry
    refine ⟨hroot, fun name hname => ?_, ?_⟩
    · obtain ⟨own, hown, rfl⟩ := List.mem_map.mp hname
      obtain ⟨written, -, hname, hspec⟩ := hyields.attributes own hown
      exact hname ▸ (AttributeDescription.of_to_spec hspec).1
    · rw [hyields.metadata_eq]
      exact part.metadata.sorted

/-- The defaults of a stage that is loaded fit if the numbers of the description are within
range. -/
theorem defaults_fit_of_loaded (h : ofDescription description = .ok stage)
    (hrange : description.InRange) : stage.DefaultsFit := by
  intro layer hlayer entry hentry own hown
  obtain ⟨-, source, hsource, part, hpart, -, hyields⟩ := exists_yields_of_loaded h hlayer hentry
  obtain ⟨written, hwritten, -, hspec⟩ := hyields.attributes own hown
  have hfinite := hrange source hsource part hpart written hwritten
  exact (AttributeDescription.of_to_spec hspec).2.2 hfinite

/-- The description of a stage whose defaults fit has values of attributes. -/
theorem has_values_describe (hfit : stage.DefaultsFit) : stage.describe.HasValues := by
  intro _ hlayers _ hprims _ hparts json hjson
  obtain ⟨layer, hlayer, rfl⟩ := List.mem_map.mp hlayers
  obtain ⟨entry, hentry, rfl⟩ := List.mem_map.mp hprims
  obtain ⟨own, hown, rfl⟩ := List.mem_map.mp hparts
  obtain ⟨value, hvalue, rfl⟩ := Option.map_eq_some_iff.mp hjson
  exact Value.flat_to_json (hfit layer hlayer entry hentry own hown value hvalue).2

/-- The description of a stage that is loaded names the paths that it is loaded from. -/
theorem spellable_describe (h : ofDescription description = .ok stage)
    (hspellable : description.Spellable) : stage.describe.Spellable := by
  intro _ hlayers _ hprims
  obtain ⟨layer, hlayer, rfl⟩ := List.mem_map.mp hlayers
  obtain ⟨entry, hentry, rfl⟩ := List.mem_map.mp hprims
  obtain ⟨-, source, hsource, part, hpart, hpath, hyields⟩ :=
    exists_yields_of_loaded h hlayer hentry
  have hpart := hspellable source hsource part hpart
  refine ⟨hpath ▸ hpart.path, fun _ hparts => ?_, ?_, ?_⟩
  · obtain ⟨own, hown, rfl⟩ := List.mem_map.mp hparts
    obtain ⟨written, hwritten, -, hspec⟩ := hyields.attributes own hown
    intro paths hpaths
    refine hpart.attributes written hwritten paths ?_
    rw [← (AttributeDescription.of_to_spec hspec).2.1]
    exact hpaths
  · show ∀ path ∈ entry.2.references, path.Spellable
    exact hyields.references_eq ▸ hpart.references
  · show ∀ paths ∈ entry.2.specializes, ∀ path ∈ paths, path.Spellable
    exact hyields.specializes_eq ▸ hpart.specializes

/-- The text of a description is read as the description if it is of the value that is written. -/
theorem parse_text_describe (hspellable : stage.describe.Spellable) (hfit : stage.DefaultsFit)
    (htext : Json.ofText? stage.describe.text = some stage.describe.toJson) :
    SceneDescription.parse stage.describe.text = .ok stage.describe := by
  obtain ⟨tree, htree, hvalue⟩ := Option.bind_eq_some_iff.mp htext
  have hread := SceneDescription.reads_to_json hspellable (has_values_describe hfit) tree hvalue
  rw [SceneDescription.parse, htree]
  simp [hread]

/-- A stage that is loaded has passed both checks, and authoring goes to its first layer. -/
theorem checked_of_loaded (h : ofDescription description = .ok stage) :
    SpecializesApart stage.layers ∧ stage.SelectionsDeclared ∧ stage.target = .ofLayer 0 := by
  obtain ⟨layers, -, hspecializes, hselections, rfl⟩ := of_description_eq_ok_iff.mp h
  rw [← check_specializes_eq_ok_iff, ← check_selections_eq_ok_iff]
  cases layers with
  | nil => exact ⟨by decide, by decide, rfl⟩
  | cons first rest => exact ⟨hspecializes, hselections, rfl⟩

/-- A stage that is loaded from a description whose numbers are within range is loaded again, with
all its layers, from its own description. If the description was read from a text, and a text is
read back as the value that it is written of, then the text of the stage's description is read as
that description and loaded as the same stage. -/
theorem loaded_reloads (h : ofDescription description = .ok stage) (hrange : description.InRange) :
    ofDescription stage.describe = .ok stage ∧
      ∀ source, SceneDescription.parse source = .ok description →
        Json.ofText? stage.describe.text = some stage.describe.toJson →
        SceneDescription.parse stage.describe.text = .ok stage.describe ∧
          parse stage.describe.text = .ok stage := by
  have hfit := defaults_fit_of_loaded h hrange
  obtain ⟨hspecializes, hselections, htarget⟩ := checked_of_loaded h
  have hreload : ofDescription stage.describe = .ok stage :=
    (of_description_describe_eq_ok_iff (regular_of_loaded h) hfit).mpr
      ⟨hspecializes, hselections, htarget ▸ rfl⟩
  refine ⟨hreload, fun source hsource htext => ?_⟩
  have hspellable := spellable_describe h (SceneDescription.spellable_of_parse hsource)
  have hparse := parse_text_describe hspellable hfit htext
  refine ⟨hparse, ?_⟩
  rw [parse, hparse]
  exact hreload

/-- A scene file with an attribute that is given twice, a slash after a choice, and a list that is
authored empty. -/
def repeatedText : String :=
  "\x7b\"layers\":[\x7b\"identifier\":\"\",\"prims\":[\x7b\"path\":\"/A\x7bs=v\x7d/B\"," ++
    "\"specializes\":[],\"attributes\":[\x7b\"name\":\"x\",\"type\":\"int\"\x7d," ++
    "\x7b\"name\":\"x\",\"type\":\"float\",\"default\":2\x7d]\x7d]\x7d]\x7d"

/-- The description that it spells. -/
def repeatedDescription : SceneDescription where
  layers := [⟨"", [⟨⟨[⟨"A", [⟨"s", "v"⟩]⟩, .plain "B"]⟩, .define, none, .empty,
    [⟨"x", "int", none, none, false⟩, ⟨"x", "float", some (.ofInt 2), none, false⟩],
    [], some [], [], .empty⟩]⟩]

/-- The stage that it stands for has the later attribute. -/
def repeatedStage : Stage :=
  ofLayers [⟨"", .ofList [(⟨[⟨"A", [⟨"s", "v"⟩]⟩, .plain "B"]⟩, { PrimSpec.blank .define with
    specializes := some []
    attributes := .ofList [("x", ⟨.float, some (.float ⟨false, 1073741824, by decide⟩), none,
      false⟩)] })]⟩]

/-- It is loaded again as it is, from its description and from the text of that. -/
theorem repeated_stage_reloads :
    SceneDescription.parse repeatedText = .ok repeatedDescription ∧
      ofDescription repeatedDescription = .ok repeatedStage ∧ repeatedDescription.InRange ∧
      ofDescription repeatedStage.describe = .ok repeatedStage ∧
      parse repeatedStage.describe.text = .ok repeatedStage := by
  have hsource : SceneDescription.parse repeatedText = .ok repeatedDescription := by
    decide +kernel
  have hload : ofDescription repeatedDescription = .ok repeatedStage := by decide +kernel
  have hrange : repeatedDescription.InRange := by decide +kernel
  have htext : Json.ofText? repeatedStage.describe.text =
      some repeatedStage.describe.toJson := by decide +kernel
  have hreload := loaded_reloads hload hrange
  have hread := hreload.2 repeatedText hsource htext
  exact ⟨hsource, hload, hrange, hreload.1, hread.2⟩

end Stage

end LayeredShading
