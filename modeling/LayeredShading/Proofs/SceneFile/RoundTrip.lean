import LayeredShading.Proofs.Numeric.Widening
import LayeredShading.SceneFile.Loading

/-!
# Reading back what is written

A description says all that a spec says: a value whose numbers are finite is read back as it was
written (`Value.of_json_to_json`), and part by part so are attributes, specs and layers
(`Layer.to_layer_describe`), if each default is of the declared type (`AttributeSpec.Fits`) and
names, paths and metadata are such as a scene file has them (`PrimSpec.Regular`, `Layer.Regular`).
-/

namespace LayeredShading

/-! ## Lists and maps -/

/-- A list is read back if each of its elements is. -/
theorem map_m_map_eq_pure {m : Type → Type} [Monad m] [LawfulMonad m] {α β : Type}
    {encode : α → β} {decode : β → m α} {list : List α}
    (h : ∀ element ∈ list, decode (encode element) = pure element) :
    (list.map encode).mapM decode = pure list := by
  induction list with
  | nil => rfl
  | cons head rest ih =>
      rw [List.map_cons, List.mapM_cons, h head List.mem_cons_self,
        ih fun element hmem => h element (List.mem_cons_of_mem _ hmem)]
      simp only [pure_bind]

/-- A sorted list is the list of entries of its map. -/
theorem SortedMap.of_list_eq {κ ν : Type} [Ord κ] [DecidableEq κ] [Std.TransOrd κ]
    [Std.LawfulEqOrd κ] {list : List (κ × ν)}
    (hsorted : list.Pairwise fun first second => compare first.1 second.1 = .lt) :
    ofList list = ⟨list, hsorted⟩ := by
  refine ext_get? fun key => ?_
  rw [ofList, get?_foldl_insert hsorted (·.2), get?_empty, Option.orElse_eq_orElse,
    Option.orElse_eq_or, Option.or_none]
  rfl

namespace Metadata

theorem set_entry_of_new {key value : String} {entries : List (String × String)}
    (h : ∀ entry ∈ entries, entry.1 ≠ key) :
    setEntry key value entries = entries ++ [(key, value)] := by
  induction entries with
  | nil => rfl
  | cons head rest ih =>
      rw [setEntry, if_neg (h head List.mem_cons_self),
        ih fun entry hmem => h entry (List.mem_cons_of_mem _ hmem), List.cons_append]

/-- Metadata with a value for each key is set again entry by entry. -/
theorem of_list_entries {metadata : Metadata}
    (h : metadata.entries.Pairwise fun first second => first.1 ≠ second.1) :
    ofList metadata.entries = metadata := by
  have hset : ∀ (rest before : List (String × String)),
      (before ++ rest).Pairwise (fun first second => first.1 ≠ second.1) →
        rest.foldl (fun metadata entry => metadata.set entry.1 entry.2) (Metadata.mk before) =
          ⟨before ++ rest⟩ := by
    intro rest
    induction rest with
    | nil => intro before _; simp
    | cons head rest ih =>
        intro before hdistinct
        have hnew : ∀ entry ∈ before, entry.1 ≠ head.1 := fun entry hmem =>
          (List.pairwise_append.mp hdistinct).2.2 entry hmem head List.mem_cons_self
        rw [List.foldl_cons, set, set_entry_of_new hnew,
          ih (before ++ [head]) (by simpa using hdistinct), List.append_assoc,
          List.singleton_append]
  exact hset metadata.entries [] h

end Metadata

/-! ## Values -/

namespace Value

open Numeric (Single)

/-- A finite number is read back. -/
theorem single_of_json {value : Single} (h : value.isInfinite = false) :
    single? (singleToJson value) = some value := by
  obtain ⟨hfinite, hback⟩ :=
    Numeric.Binary.convert_convert Numeric.Format.double_widens_single h
  rw [singleToJson, Json.ofDouble, hfinite, if_neg Bool.false_ne_true]
  exact congrArg some hback

/-- Finite numbers are read back. -/
theorem singles_of_json {values : List Single} (h : ∀ value ∈ values, value.isInfinite = false) :
    singles? (.array (values.map singleToJson)) = some values :=
  map_m_map_eq_pure fun value hmem => single_of_json (h value hmem)

theorem int32_of_json (value : Int32) : int32? value.toInt = some value := by
  rw [int32?, Int32.ofInt_toInt, if_pos rfl]

/-- A value without infinite components is read back. -/
theorem of_json_to_json {value : Value} (h : value.isFinite = true) :
    ofJson value.type value.toJson = .ok value := by
  have hcomponents : ∀ component ∈ value.components, component.isInfinite = false := by
    simpa [isFinite] using h
  have hread : ofJson? value.type value.toJson = some value := by
    cases value with
    | token text => rfl
    | bool value => rfl
    | int value =>
        show (int32? value.toInt).map int = some (int value)
        rw [int32_of_json, Option.map_some]
    | float x =>
        show (single? (singleToJson x)).map float = some (float x)
        rw [single_of_json (hcomponents x List.mem_cons_self), Option.map_some]
    | float2 | float3 | float4 | color3f | normal3f =>
        have hsingles := singles_of_json hcomponents
        simp only [components, List.map_cons, List.map_nil] at hsingles
        simp only [type, toJson, ofJson?, hsingles]
    | string text => rfl
    | asset path => rfl
  rw [ofJson, hread]

end Value

/-! ## Specs and layers -/

namespace AttributeSpec

/-- The default, if there is one, is of the declared type, and its numbers are finite. -/
def Fits (spec : AttributeSpec) : Prop :=
  ∀ value ∈ spec.default, value.type = spec.type ∧ value.isFinite = true

instance (spec : AttributeSpec) : Decidable spec.Fits :=
  inferInstanceAs (Decidable (∀ value ∈ spec.default,
    value.type = spec.type ∧ value.isFinite = true))

/-- An attribute whose default fits is read back. -/
theorem to_spec_describe {spec : AttributeSpec} (h : spec.Fits) {prim : PrimPath} {name : String}
    (hprim : prim.isRoot = false) (hname : isPropertyName name = true) :
    (spec.describe name).toSpec prim = .ok spec := by
  have hpath : prim.property name = .ok ⟨prim, name⟩ := by
    simp [PrimPath.property, hprim, hname]
  have hdefault : (spec.default.map Value.toJson).mapM (Value.ofJson spec.type) =
      .ok spec.default := by
    cases hvalue : spec.default with
    | none => rfl
    | some value =>
        obtain ⟨htype, hfinite⟩ := h value hvalue
        rw [← htype]
        show some <$> Value.ofJson value.type value.toJson = _
        rw [Value.of_json_to_json hfinite]
        rfl
  simp only [AttributeDescription.toSpec, describe, hpath, ValueType.ofName?_name]
  show (do let default ← (spec.default.map Value.toJson).mapM (Value.ofJson spec.type)
           return (⟨spec.type, default, spec.connections, spec.custom⟩ : AttributeSpec)) = _
  rw [hdefault]
  rfl

end AttributeSpec

namespace PrimSpec

/-- The attributes have names of properties, and the keys of the metadata ascend. -/
structure Regular (spec : PrimSpec) : Prop where
  names : ∀ name ∈ spec.attributes.keys, isPropertyName name = true
  metadata : spec.metadata.entries.Pairwise fun first second => compare first.1 second.1 = .lt

/-- A spec is read back if the defaults of its attributes fit. -/
theorem to_spec_describe {spec : PrimSpec} (h : spec.Regular)
    (hfits : ∀ entry ∈ spec.attributes.entries, entry.2.Fits) {path : PrimPath}
    (hpath : path.isRoot = false) : (spec.describe path).toSpec = .ok spec := by
  have hattributes : (spec.attributes.entries.map fun entry => entry.2.describe entry.1).mapM
      (fun part => return (part.name, ← part.toSpec path)) =
        (.ok spec.attributes.entries : Except Error _) := by
    refine map_m_map_eq_pure fun entry hentry => ?_
    show (do return (entry.1, ← (entry.2.describe entry.1).toSpec path)) = _
    have hname := h.names entry.1 (List.mem_map_of_mem hentry)
    rw [AttributeSpec.to_spec_describe (hfits entry hentry) hpath hname]
    rfl
  have hmetadata : Metadata.ofList (SortedMap.ofList spec.metadata.entries).entries =
      spec.metadata := by
    rw [SortedMap.of_list_eq h.metadata]
    refine Metadata.of_list_entries (h.metadata.imp fun {first second} hless hsame => ?_)
    simp [hsame, Std.ReflCmp.compare_self] at hless
  have hmap := SortedMap.of_list_eq spec.attributes.sorted
  simp only [PrimDescription.toSpec, describe]
  rw [hattributes]
  show Except.ok _ = Except.ok spec
  rw [hmetadata, hmap]

end PrimSpec

namespace Layer

/-- The specs are regular, and none of them is at the root. -/
def Regular (layer : Layer) : Prop :=
  ∀ entry ∈ layer.specs.entries, entry.1.isRoot = false ∧ entry.2.Regular

/-- The defaults of all attributes fit. -/
def DefaultsFit (layer : Layer) : Prop :=
  ∀ entry ∈ layer.specs.entries, ∀ part ∈ entry.2.attributes.entries, part.2.Fits

instance (layer : Layer) : Decidable layer.DefaultsFit :=
  inferInstanceAs (Decidable (∀ entry ∈ layer.specs.entries,
    ∀ part ∈ entry.2.attributes.entries, part.2.Fits))

/-- A layer is read back if the defaults of its attributes fit. -/
theorem to_layer_describe {layer : Layer} (h : layer.Regular) (hfit : layer.DefaultsFit) :
    layer.describe.toLayer = .ok layer := by
  have hspecs : (layer.specs.entries.map fun entry => entry.2.describe entry.1).mapM
      (fun (part : PrimDescription) => do
        if part.path.isRoot then throw (Error.invalidPath part.path.text)
        return (part.path, ← part.toSpec)) = .ok layer.specs.entries := by
    refine map_m_map_eq_pure fun entry hentry => ?_
    obtain ⟨hpath, hregular⟩ := h entry hentry
    have hspec := PrimSpec.to_spec_describe hregular (hfit entry hentry) hpath
    have hsame : (entry.2.describe entry.1).path = entry.1 := rfl
    simp only [hsame, hpath, hspec]
    rfl
  simp only [LayerDescription.toLayer, describe]
  rw [hspecs]
  show Except.ok _ = Except.ok layer
  rw [SortedMap.of_list_eq layer.specs.sorted]

end Layer

namespace Stage

/-- There is a layer, and all layers are regular. -/
structure Regular (stage : Stage) : Prop where
  layers_ne_nil : stage.layers ≠ []
  layers : ∀ layer ∈ stage.layers, layer.Regular

/-- The defaults of all attributes fit. -/
def DefaultsFit (stage : Stage) : Prop := ∀ layer ∈ stage.layers, layer.DefaultsFit

instance (stage : Stage) : Decidable stage.DefaultsFit :=
  inferInstanceAs (Decidable (∀ layer ∈ stage.layers, layer.DefaultsFit))

/-- The layers are read back if the defaults of all attributes fit. -/
theorem to_layers_describe {stage : Stage} (h : stage.Regular) (hfit : stage.DefaultsFit) :
    stage.describe.layers.mapM LayerDescription.toLayer = .ok stage.layers :=
  map_m_map_eq_pure fun layer hlayer =>
    Layer.to_layer_describe (h.layers layer hlayer) (hfit layer hlayer)

end Stage

end LayeredShading
