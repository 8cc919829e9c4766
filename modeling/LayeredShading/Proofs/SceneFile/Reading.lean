import LayeredShading.Proofs.Path.Reading
import LayeredShading.Proofs.SceneFile.RoundTrip
import LayeredShading.SceneFile.Decoding
import LayeredShading.SceneFile.Encoding

/-!
# Reading written descriptions back

A description whose paths are spellable and whose defaults are such as values have them
(`SceneDescription.Readable`) is read back from its JSON value (`SceneDescription.reads_to_json`),
field by field: a field that is left out is one that is absent or empty, and an authored empty list
is there. What the tree of a text stands for is `JsonTree.value?`; that a text which is written is
one of the same value is left to those who use these laws.
-/

namespace LayeredShading

/-- A reader passes over a list exactly if it reads every element. -/
theorem map_m_eq_some_iff {α β : Type} {read? : α → Option β} {list : List α} {images : List β} :
    list.mapM read? = some images ↔
      List.Forall₂ (fun element image => read? element = some image) list images := by
  induction list generalizing images with
  | nil => simp [eq_comm]
  | cons head rest ih =>
      rw [List.mapM_cons, List.forall₂_cons_left_iff]
      simp only [Option.bind_eq_bind, Option.bind_eq_some_iff, Option.pure_def, Option.some.injEq,
        ih]
      constructor
      · rintro ⟨image, himage, others, hothers, rfl⟩
        exact ⟨image, others, himage, hothers, rfl⟩
      · rintro ⟨image, others, himage, hothers, rfl⟩
        exact ⟨image, himage, others, hothers, rfl⟩

/-- What is read of a list is read of one of its elements. -/
theorem exists_of_map_m_eq_some {α β : Type} {read? : α → Option β} {list : List α}
    {images : List β} (h : list.mapM read? = some images) {image : β} (himage : image ∈ images) :
    ∃ element ∈ list, read? element = some image := by
  rw [map_m_eq_some_iff] at h
  induction h with
  | nil => cases himage
  | cons hhead _ ih =>
      rcases List.mem_cons.mp himage with rfl | himage
      · exact ⟨_, List.mem_cons_self, hhead⟩
      · obtain ⟨element, hmem, hread⟩ := ih himage
        exact ⟨element, List.mem_cons_of_mem _ hmem, hread⟩

/-! ## The value of a tree -/

namespace JsonTree

mutual

/-- The value of a tree with the fields of objects in the order in which they are written. -/
def value? : JsonTree → Option Json
  | .null => some .null
  | .bool value => some (.bool value)
  | .number literal => literal.toNumber?.map .number
  | .string units => (textOfUnits? units).map .string
  | .array items => (itemValues? items).map .array
  | .object fields => (fieldValues? fields).map .object

/-- The values of the items of an array. -/
def itemValues? : List JsonTree → Option (List Json)
  | [] => some []
  | item :: rest => do return (← value? item) :: (← itemValues? rest)

/-- The names and values of the fields of an object. -/
def fieldValues? : List (List Nat × JsonTree) → Option (List (String × Json))
  | [] => some []
  | (name, tree) :: rest => do
    return (← textOfUnits? name, ← value? tree) :: (← fieldValues? rest)

end

/-- The values of items are those of the items one by one. -/
theorem forall₂_of_item_values {trees : List JsonTree} {items : List Json}
    (h : itemValues? trees = some items) :
    List.Forall₂ (fun tree item => tree.value? = some item) trees items := by
  induction trees generalizing items with
  | nil =>
      cases h
      exact .nil
  | cons tree rest ih =>
      simp only [itemValues?, Option.bind_eq_bind, Option.bind_eq_some_iff] at h
      obtain ⟨item, hitem, others, hothers, hitems⟩ := h
      cases hitems
      exact .cons hitem (ih hothers)

theorem forall₂_of_field_values {fields : List (List Nat × JsonTree)}
    {entries : List (String × Json)} (h : fieldValues? fields = some entries) :
    List.Forall₂ (fun field entry =>
      textOfUnits? field.1 = some entry.1 ∧ field.2.value? = some entry.2) fields entries := by
  induction fields generalizing entries with
  | nil =>
      cases h
      exact .nil
  | cons field rest ih =>
      obtain ⟨name, tree⟩ := field
      simp only [fieldValues?, Option.bind_eq_bind, Option.bind_eq_some_iff] at h
      obtain ⟨text, htext, value, hvalue, others, hothers, hentries⟩ := h
      cases hentries
      exact .cons ⟨htext, hvalue⟩ (ih hothers)

/-- Only an array of trees stands for an array. -/
theorem exists_of_value_eq_array {tree : JsonTree} {items : List Json}
    (h : tree.value? = some (.array items)) :
    ∃ trees, tree = .array trees ∧
      List.Forall₂ (fun tree item => tree.value? = some item) trees items := by
  cases tree with
  | array trees =>
      simp only [value?, Option.map_eq_some_iff, Json.array.injEq, exists_eq_right] at h
      exact ⟨trees, rfl, forall₂_of_item_values h⟩
  | _ => simp [value?] at h

/-- Only a tree with fields stands for an object, and its names and values are those of the object
in their order. -/
theorem exists_of_value_eq_object {tree : JsonTree} {entries : List (String × Json)}
    (h : tree.value? = some (.object entries)) :
    ∃ fields, tree = .object fields ∧
      List.Forall₂ (fun field entry =>
        textOfUnits? field.1 = some entry.1 ∧ field.2.value? = some entry.2) fields entries := by
  cases tree with
  | object fields =>
      simp only [value?, Option.map_eq_some_iff, Json.object.injEq, exists_eq_right] at h
      exact ⟨fields, rfl, forall₂_of_field_values h⟩
  | _ => simp [value?] at h

/-! ## Readers -/

/-- A reader takes a value for what it stands for, in whatever way a tree spells it. -/
def Reads {α : Type} (read? : JsonTree → Option α) (json : Json) (meaning : α) : Prop :=
  ∀ tree : JsonTree, tree.value? = some json → read? tree = some meaning

theorem reads_text (text : String) : Reads text? (.string text) text := by
  intro tree h
  cases tree with
  | string units => simpa [value?, text?] using h
  | _ => simp [value?] at h

theorem reads_bool (value : Bool) : Reads bool? (.bool value) value := by
  intro tree h
  cases tree with
  | bool value => simpa [value?, bool?] using h
  | _ => simp [value?] at h

/-- Items that are read one by one are read as a list. -/
theorem map_m_of_reads {α : Type} {item? : JsonTree → Option α} {trees : List JsonTree}
    {items : List Json} {list : List α} (hlist : List.Forall₂ (Reads item?) items list)
    (h : List.Forall₂ (fun tree item => tree.value? = some item) trees items) :
    trees.mapM item? = some list := by
  rw [map_m_eq_some_iff]
  induction h generalizing list with
  | nil =>
      cases hlist
      exact .nil
  | cons htree _ ih =>
      cases hlist with
      | cons hitem hrest => exact .cons (hitem _ htree) (ih hrest)

/-- A list is read if each of its elements is. -/
theorem reads_list {α : Type} {item? : JsonTree → Option α} {encode : α → Json} {list : List α}
    (h : ∀ element ∈ list, Reads item? (encode element) element) :
    Reads (list? item?) (.array (list.map encode)) list := by
  intro tree htree
  obtain ⟨trees, rfl, htrees⟩ := exists_of_value_eq_array htree
  refine map_m_of_reads ?_ htrees
  rw [List.forall₂_map_left_iff, List.forall₂_same]
  exact h

/-- A value that is not null is there. -/
theorem Reads.optional {α : Type} {read? : JsonTree → Option α} {json : Json} {meaning : α}
    (h : Reads read? json meaning) (hnull : json ≠ .null) :
    Reads (optional? read?) json (some meaning) := by
  intro tree htree
  cases tree with
  | null => exact absurd (Option.some.inj htree).symm hnull
  | _ => simp [optional?, h _ htree]

/-- A map of texts is read, as it is written in the order of its keys. -/
theorem reads_texts (map : SortedMap String String) :
    Reads texts? (.object (map.entries.map fun entry => (entry.1, .string entry.2))) map := by
  intro tree htree
  obtain ⟨fields, rfl, hfields⟩ := exists_of_value_eq_object htree
  rw [List.forall₂_map_right_iff] at hfields
  rw [texts?]
  refine Option.bind_eq_some_iff.mpr ⟨map.entries, map_m_eq_some_iff.mpr (hfields.imp ?_),
    congrArg some (SortedMap.of_list_eq map.sorted)⟩
  rintro ⟨name, value⟩ entry ⟨hname, hvalue⟩
  simp [hname, reads_text _ _ hvalue]

theorem reads_specifier (specifier : Specifier) :
    Reads specifier? (.string specifier.name) specifier := by
  intro tree h
  cases tree with
  | string units =>
      simp only [value?, Option.map_eq_some_iff, Json.string.injEq, exists_eq_right] at h
      simp only [specifier?, h]
      cases specifier <;> decide
  | _ => simp [value?] at h

/-- A spellable path is read from its text. -/
theorem reads_path {path : PrimPath} (h : path.Spellable) :
    Reads path? (.string path.text) path := by
  intro tree htree
  simp [path?, reads_text _ _ htree, PrimPath.parse_text h, Except.toOption]

theorem reads_property_path {path : PropertyPath} (h : path.Spellable) :
    Reads propertyPath? (.string path.text) path := by
  intro tree htree
  simp [propertyPath?, reads_text _ _ htree, PropertyPath.parse_text h, Except.toOption]

/-! ## Values of attributes -/

/-- A value without containers. -/
def Scalar : Json → Prop
  | .array _ | .object _ => False
  | _ => True

/-- A value without containers, or an array of such. -/
def Flat : Json → Prop
  | .array items => ∀ item ∈ items, Scalar item
  | json => Scalar json

/-- A value without containers is read at any depth. -/
theorem reads_scalar (depth : Nat) {json : Json} (h : Scalar json) :
    Reads (toJson? depth) json json := by
  intro tree htree
  cases tree with
  | array trees =>
      obtain ⟨items, -, rfl⟩ := Option.map_eq_some_iff.mp htree
      cases h
  | object fields =>
      obtain ⟨entries, -, rfl⟩ := Option.map_eq_some_iff.mp htree
      cases h
  | _ => simpa [value?, toJson?] using htree

theorem items_to_json_eq_map_m (depth : Nat) (trees : List JsonTree) :
    itemsToJson? depth trees = trees.mapM (toJson? depth) := by
  induction trees with
  | nil => rfl
  | cons tree rest ih => rw [itemsToJson?, ih, List.mapM_cons]

/-- A flat value is read wherever an array may stand. -/
theorem reads_flat {depth : Nat} (hdepth : 0 < depth) {json : Json} (h : Flat json) :
    Reads (toJson? depth) json json := by
  cases json with
  | array items =>
      intro tree htree
      obtain ⟨trees, rfl, htrees⟩ := exists_of_value_eq_array htree
      have hitems : itemsToJson? (depth - 1) trees = some items := by
        rw [items_to_json_eq_map_m]
        exact map_m_of_reads
          (List.forall₂_same.mpr fun item hitem => reads_scalar _ (h item hitem)) htrees
      simp [toJson?, hdepth, hitems]
  | _ => exact reads_scalar depth h

/-! ## Records -/

/-- The fields that are read are those that are written. -/
def FieldsOf (fields : List (String × JsonTree)) (entries : List (String × Json)) : Prop :=
  List.Forall₂ (fun field entry => field.1 = entry.1 ∧ field.2.value? = some entry.2) fields
    entries

/-- The fields have the names under which they are written. -/
theorem FieldsOf.names_eq {fields : List (String × JsonTree)} {entries : List (String × Json)}
    (h : FieldsOf fields entries) : fields.map (·.1) = entries.map (·.1) := by
  induction h with
  | nil => rfl
  | cons hentry _ ih => rw [List.map_cons, List.map_cons, hentry.1, ih]

/-- A record is read if its fields have names that are known, in their order. -/
theorem exists_record_of_value {tree : JsonTree} {entries : List (String × Json)}
    (names : List String) (h : tree.value? = some (.object entries))
    (hnames : (entries.map (·.1)).Sublist names) (hdistinct : names.Nodup) :
    ∃ fields, tree.record? names = some fields ∧ FieldsOf fields entries := by
  obtain ⟨written, rfl, hwritten⟩ := exists_of_value_eq_object h
  obtain ⟨fields, hfields, hof⟩ : ∃ fields : List (String × JsonTree),
      List.Forall₂ (fun field read => textOfUnits? field.1 = some read.1 ∧ field.2 = read.2)
        written fields ∧ FieldsOf fields entries := by
    clear h hnames
    induction hwritten with
    | nil => exact ⟨[], .nil, .nil⟩
    | @cons field entry _ _ hfield _ ih =>
        obtain ⟨fields, hfields, hof⟩ := ih
        exact ⟨(entry.1, field.2) :: fields, .cons ⟨hfield.1, rfl⟩ hfields,
          .cons ⟨rfl, hfield.2⟩ hof⟩
  have hknown : fields.filter (fun field => decide (field.1 ∈ names)) = fields := by
    refine List.filter_eq_self.mpr fun field hfield => decide_eq_true ?_
    exact hnames.subset (hof.names_eq ▸ List.mem_map_of_mem hfield)
  have hnodup : (fields.map (·.1)).Nodup := hof.names_eq ▸ hnames.nodup hdistinct
  refine ⟨fields, ?_, hof⟩
  rw [record?]
  refine Option.bind_eq_some_iff.mpr ⟨fields, map_m_eq_some_iff.mpr (hfields.imp ?_), ?_⟩
  · rintro ⟨name, value⟩ ⟨own, other⟩ ⟨hname, rfl⟩
    simp [hname]
  · simp [hknown, hnodup]

/-- A field that is written is given, and one that is left out is not. -/
theorem FieldsOf.lookup {fields : List (String × JsonTree)} {entries : List (String × Json)}
    (h : FieldsOf fields entries) (name : String) :
    (∃ tree json, fields.lookup name = some tree ∧ entries.lookup name = some json ∧
        tree.value? = some json) ∨
      fields.lookup name = none ∧ entries.lookup name = none := by
  induction h with
  | nil => exact .inr ⟨rfl, rfl⟩
  | @cons field entry _ _ hfield _ ih =>
      obtain ⟨hname, hvalue⟩ := hfield
      rw [List.lookup_cons, List.lookup_cons, hname]
      split
      next => exact .inl ⟨_, _, rfl, rfl, hvalue⟩
      next => exact ih

section Fields

variable {α : Type} {read? : JsonTree → Option α} {fields : List (String × JsonTree)}
  {entries : List (String × Json)} {name : String} {meaning : α}

/-- A required field is read from what is written. -/
theorem FieldsOf.field_eq {json : Json} (h : FieldsOf fields entries)
    (hlookup : entries.lookup name = some json) (hread : Reads read? json meaning) :
    field? fields name read? = some meaning := by
  rcases h.lookup name with ⟨tree, written, htree, hwritten, hvalue⟩ | ⟨-, hnone⟩
  · obtain rfl : written = json := by simpa [hwritten] using hlookup
    simp [field?, htree, hread tree hvalue]
  · simp [hnone] at hlookup

/-- A field that may be left out is read from what is written, or stands for what it stands for when
it is left out. -/
theorem FieldsOf.field_or_eq {absent : α} (h : FieldsOf fields entries)
    (hread : ∀ json, entries.lookup name = some json → Reads read? json meaning)
    (habsent : entries.lookup name = none → absent = meaning) :
    fieldOr? fields name absent read? = some meaning := by
  rcases h.lookup name with ⟨tree, json, htree, hwritten, hvalue⟩ | ⟨hnone, hleft⟩
  · simp [fieldOr?, htree, hread json hwritten tree hvalue]
  · simp [fieldOr?, hnone, habsent hleft]

/-- A field that is left out if its value is absent. -/
theorem FieldsOf.optional_eq {written : Option α} {encode : α → Json} (h : FieldsOf fields entries)
    (hlookup : entries.lookup name = written.map encode)
    (hread : ∀ value ∈ written, Reads read? (encode value) value ∧ encode value ≠ .null) :
    fieldOr? fields name none (optional? read?) = some written := by
  refine h.field_or_eq (fun json hjson => ?_) fun hnone => ?_
  · obtain ⟨value, hvalue, rfl⟩ := Option.map_eq_some_iff.mp (hlookup.symm.trans hjson)
    obtain ⟨hreads, hnull⟩ := hread value hvalue
    rw [hvalue]
    exact hreads.optional hnull
  · exact (Option.map_eq_none_iff.mp (hlookup.symm.trans hnone)).symm

/-- A field that is left out if its list is empty. -/
theorem FieldsOf.list_eq {list : List α} {encode : α → Json} (h : FieldsOf fields entries)
    (hlookup : entries.lookup name =
      if list.map encode = [] then none else some (.array (list.map encode)))
    (hread : ∀ element ∈ list, Reads read? (encode element) element) :
    fieldOr? fields name [] (list? read?) = some list := by
  refine h.field_or_eq (fun json hjson => ?_) fun hnone => ?_
  · rw [hlookup, Option.ite_none_left_eq_some] at hjson
    rw [← Option.some.inj hjson.2]
    exact reads_list hread
  · rw [hlookup] at hnone
    split at hnone
    next hempty => exact (List.map_eq_nil_iff.mp hempty).symm
    next => cases hnone

/-- A field that is left out if it has no texts. -/
theorem FieldsOf.texts_eq {texts : SortedMap String String} (h : FieldsOf fields entries)
    (hlookup : entries.lookup name =
      if texts.isEmpty then none
      else some (.object (texts.entries.map fun entry => (entry.1, .string entry.2)))) :
    fieldOr? fields name .empty texts? = some texts := by
  refine h.field_or_eq (fun json hjson => ?_) fun hnone => ?_
  · rw [hlookup, Option.ite_none_left_eq_some] at hjson
    rw [← Option.some.inj hjson.2]
    exact reads_texts texts
  · rw [hlookup] at hnone
    split at hnone
    next hempty => exact SortedMap.ext (List.isEmpty_iff.mp hempty).symm
    next => cases hnone

end Fields

end JsonTree

/-! ## Fields that may be left out -/

section Optional

variable (name other : String)

/-- A field that may be left out has no name but its own. -/
theorem optional_field_names (value : Option Json) :
    ((optionalField name value).map (·.1)).Sublist [name] := by
  cases value <;> simp [optionalField]

/-- A field that is written on a condition. -/
theorem optional_field_if (condition : Bool) (json : Json) :
    optionalField name (if condition then some json else none) =
      if condition then [(name, json)] else [] := by
  cases condition <;> rfl

theorem list_field_names (items : List Json) :
    ((listField name items).map (·.1)).Sublist [name] := by
  rw [listField]
  split <;> simp

theorem texts_field_names (texts : SortedMap String String) :
    ((textsField name texts).map (·.1)).Sublist [name] := by
  rw [textsField]
  split <;> simp

theorem lookup_single (json : Json) :
    [(name, json)].lookup other = if other = name then some json else none := by
  rw [List.lookup_cons, List.lookup_nil]
  by_cases h : other = name
  · simp [h]
  · rw [beq_eq_false_iff_ne.mpr h, if_neg h]

@[simp]
theorem lookup_optional_field (value : Option Json) :
    (optionalField name value).lookup other = if other = name then value else none := by
  cases value with
  | none => simp [optionalField]
  | some json => exact lookup_single name other json

@[simp]
theorem lookup_list_field (items : List Json) :
    (listField name items).lookup other =
      if other = name then if items = [] then none else some (.array items) else none := by
  cases items with
  | nil => simp [listField]
  | cons item rest => simpa [listField] using lookup_single name other (.array (item :: rest))

@[simp]
theorem lookup_texts_field (texts : SortedMap String String) :
    (textsField name texts).lookup other =
      if other = name then
        if texts.isEmpty then none
        else some (.object (texts.entries.map fun entry => (entry.1, .string entry.2)))
      else none := by
  cases hempty : texts.isEmpty with
  | true => simp [textsField, hempty]
  | false => simpa [textsField, hempty] using lookup_single name other _

end Optional

/-! ## Descriptions -/

open JsonTree

/-- The connections are to spellable paths. -/
def AttributeDescription.Spellable (description : AttributeDescription) : Prop :=
  ∀ paths ∈ description.connections, ∀ path ∈ paths, path.Spellable

/-- The prim and all paths that are named are spellable. -/
structure PrimDescription.Spellable (description : PrimDescription) : Prop where
  path : description.path.Spellable
  attributes : ∀ part ∈ description.attributes, part.Spellable
  references : ∀ path ∈ description.references, path.Spellable
  specializes : ∀ paths ∈ description.specializes, ∀ path ∈ paths, path.Spellable

/-- All paths are spellable. -/
def SceneDescription.Spellable (description : SceneDescription) : Prop :=
  ∀ layer ∈ description.layers, ∀ part ∈ layer.prims, part.Spellable

/-- The default, if there is one, is a value of an attribute. -/
def AttributeDescription.HasValue (description : AttributeDescription) : Prop :=
  ∀ json ∈ description.default, Flat json ∧ json ≠ .null

/-- The defaults of all attributes are values of attributes. -/
def SceneDescription.HasValues (description : SceneDescription) : Prop :=
  ∀ layer ∈ description.layers, ∀ prim ∈ layer.prims, ∀ part ∈ prim.attributes, part.HasValue

/-- The fields of a described attribute are known. -/
theorem AttributeDescription.exists_record {description : AttributeDescription} {tree : JsonTree}
    (h : tree.value? = some description.toJson) :
    ∃ fields entries, tree.record? ["name", "type", "default", "connections", "custom"] =
      some fields ∧ .object entries = description.toJson ∧ FieldsOf fields entries := by
  obtain ⟨fields, hrecord, hof⟩ := exists_record_of_value
    (["name", "type"] ++ ["default"] ++ ["connections"] ++ ["custom"]) h
    (by
      simp only [List.map_append]
      refine (((List.Sublist.refl _).append (optional_field_names _ _)).append
        (optional_field_names _ _)).append ?_
      rw [← optional_field_if]
      exact optional_field_names _ _)
    (by decide)
  exact ⟨fields, _, hrecord, rfl, hof⟩

/-- A described attribute is read from what is written of it. -/
theorem AttributeDescription.reads_to_json {description : AttributeDescription}
    (hnamed : description.Spellable) (hvalue : description.HasValue) :
    Reads attributeDescription? description.toJson description := by
  intro tree htree
  obtain ⟨fields, entries, hrecord, hentries, hof⟩ := exists_record htree
  obtain rfl := Json.object.inj hentries
  rw [← optional_field_if] at hof
  have hname : field? fields "name" text? = some description.name :=
    hof.field_eq rfl (reads_text _)
  have htype : field? fields "type" text? = some description.typeName :=
    hof.field_eq rfl (reads_text _)
  have hdefault : fieldOr? fields "default" none (optional? (toJson? defaultDepth)) =
      some description.default :=
    hof.optional_eq (by simp [List.lookup_append, List.lookup_cons])
      fun json hjson => ⟨reads_flat (by decide) (hvalue json hjson).1, (hvalue json hjson).2⟩
  have hconnections : fieldOr? fields "connections" none (optional? (list? propertyPath?)) =
      some description.connections :=
    hof.optional_eq (by simp [List.lookup_append, List.lookup_cons])
      fun paths hpaths => ⟨reads_list fun path hpath =>
        reads_property_path (hnamed paths hpaths path hpath), Json.noConfusion⟩
  have hcustom : fieldOr? fields "custom" false bool? = some description.custom := by
    cases hwritten : description.custom with
    | true =>
        refine hof.field_or_eq (fun json hjson => ?_) fun hnone => ?_
        · obtain rfl : Json.bool true = json := by
            simpa [List.lookup_append, List.lookup_cons, hwritten] using hjson
          exact reads_bool true
        · simp [List.lookup_append, List.lookup_cons, hwritten] at hnone
    | false =>
        refine hof.field_or_eq (fun json hjson => ?_) fun _ => rfl
        simp [List.lookup_append, List.lookup_cons, hwritten] at hjson
  simp [attributeDescription?, hrecord, hname, htype, hdefault, hconnections, hcustom]

/-- A variant set is read from what is written of it. -/
theorem VariantSetSpec.reads_to_json (set : VariantSetSpec) :
    Reads variantSet? set.toJson set := by
  intro tree htree
  obtain ⟨fields, hrecord, hof⟩ := exists_record_of_value ["name", "variants"] htree
    (List.Sublist.refl _) (by decide)
  have hname : field? fields "name" text? = some set.name := hof.field_eq rfl (reads_text _)
  have hvariants : fieldOr? fields "variants" [] (list? text?) = some set.variants := by
    refine hof.field_or_eq (fun json hjson => ?_) fun hnone => by cases hnone
    obtain rfl : Json.ofStrings set.variants = json := Option.some.inj hjson
    exact reads_list fun text _ => reads_text text
  simp [variantSet?, hrecord, hname, hvariants]

/-- The fields of a described prim are known. -/
theorem PrimDescription.exists_record {description : PrimDescription} {tree : JsonTree}
    (h : tree.value? = some description.toJson) :
    ∃ fields entries, tree.record? ["path", "specifier", "type", "metadata", "attributes",
        "references", "specializes", "variantSets", "variantSelection"] = some fields ∧
      .object entries = description.toJson ∧ FieldsOf fields entries := by
  obtain ⟨fields, hrecord, hof⟩ := exists_record_of_value
    (["path", "specifier"] ++ ["type"] ++ ["metadata"] ++ ["attributes"] ++ ["references"] ++
      ["specializes"] ++ ["variantSets"] ++ ["variantSelection"]) h
    (by
      simp only [List.map_append]
      exact (((((((List.Sublist.refl _).append (optional_field_names _ _)).append
        (texts_field_names _ _)).append (list_field_names _ _)).append
        (list_field_names _ _)).append (optional_field_names _ _)).append
        (list_field_names _ _)).append (texts_field_names _ _))
    (by decide)
  exact ⟨fields, _, hrecord, rfl, hof⟩

/-- A described prim is read from what is written of it. -/
theorem PrimDescription.reads_to_json {description : PrimDescription}
    (hnamed : description.Spellable) (hvalues : ∀ part ∈ description.attributes, part.HasValue) :
    Reads primDescription? description.toJson description := by
  intro tree htree
  obtain ⟨fields, entries, hrecord, hentries, hof⟩ := exists_record htree
  obtain rfl := Json.object.inj hentries
  have hpath : field? fields "path" path? = some description.path :=
    hof.field_eq rfl (reads_path hnamed.path)
  have hspecifier :
      fieldOr? fields "specifier" .define specifier? = some description.specifier := by
    refine hof.field_or_eq (fun json hjson => ?_) fun hnone => by cases hnone
    obtain rfl : Json.string description.specifier.name = json := Option.some.inj hjson
    exact reads_specifier _
  have htype : fieldOr? fields "type" none (optional? text?) = some description.typeName :=
    hof.optional_eq (by simp [List.lookup_append, List.lookup_cons])
      fun text _ => ⟨reads_text text, Json.noConfusion⟩
  have hmetadata : fieldOr? fields "metadata" .empty texts? = some description.metadata :=
    hof.texts_eq (by simp [List.lookup_append, List.lookup_cons])
  have hattributes : fieldOr? fields "attributes" [] (list? attributeDescription?) =
      some description.attributes :=
    hof.list_eq (by simp [List.lookup_append, List.lookup_cons]) fun part hpart =>
      (AttributeDescription.reads_to_json (hnamed.attributes part hpart) (hvalues part hpart))
  have hreferences : fieldOr? fields "references" [] (list? path?) = some description.references :=
    hof.list_eq (by simp [List.lookup_append, List.lookup_cons, pathsToJson]) fun path hpath =>
      reads_path (hnamed.references path hpath)
  have hspecializes : fieldOr? fields "specializes" none (optional? (list? path?)) =
      some description.specializes :=
    hof.optional_eq (by simp [List.lookup_append, List.lookup_cons, pathsToJson])
      fun paths hpaths => ⟨reads_list fun path hpath =>
        reads_path (hnamed.specializes paths hpaths path hpath), Json.noConfusion⟩
  have hsets : fieldOr? fields "variantSets" [] (list? variantSet?) =
      some description.variantSets :=
    hof.list_eq (by simp [List.lookup_append, List.lookup_cons]) fun set _ => set.reads_to_json
  have hselection : fieldOr? fields "variantSelection" .empty texts? =
      some description.variantSelection :=
    hof.texts_eq (by simp [List.lookup_append, List.lookup_cons])
  simp [primDescription?, hrecord, hpath, hspecifier, htype, hmetadata, hattributes, hreferences,
    hspecializes, hsets, hselection]

theorem LayerDescription.reads_to_json {description : LayerDescription}
    (hnamed : ∀ part ∈ description.prims, part.Spellable)
    (hvalues : ∀ prim ∈ description.prims, ∀ part ∈ prim.attributes, part.HasValue) :
    Reads layerDescription? description.toJson description := by
  intro tree htree
  obtain ⟨fields, hrecord, hof⟩ := exists_record_of_value ["identifier", "prims"] htree
    (List.Sublist.refl _) (by decide)
  have hidentifier : field? fields "identifier" text? = some description.identifier :=
    hof.field_eq rfl (reads_text _)
  have hprims : fieldOr? fields "prims" [] (list? primDescription?) = some description.prims := by
    refine hof.field_or_eq (fun json hjson => ?_) fun hnone => by cases hnone
    obtain rfl : Json.array (description.prims.map PrimDescription.toJson) = json :=
      Option.some.inj hjson
    exact reads_list fun prim hprim =>
      PrimDescription.reads_to_json (hnamed prim hprim) (hvalues prim hprim)
  simp [layerDescription?, hrecord, hidentifier, hprims]

/-- A description of spellable paths and of values is read from what is written of it. -/
theorem SceneDescription.reads_to_json {description : SceneDescription}
    (hnamed : description.Spellable) (hvalues : description.HasValues) :
    Reads sceneDescription? description.toJson description := by
  intro tree htree
  obtain ⟨fields, hrecord, hof⟩ := exists_record_of_value ["layers"] htree
    (List.Sublist.refl _) (by decide)
  have hlayers : field? fields "layers" (list? layerDescription?) = some description.layers :=
    hof.field_eq rfl (reads_list fun layer hlayer =>
      LayerDescription.reads_to_json (hnamed layer hlayer) (hvalues layer hlayer))
  simp [sceneDescription?, hrecord, hlayers]

/-! ## What is read -/

namespace JsonTree

variable {α : Type} {read? : JsonTree → Option α} {holds : α → Prop}

/-- Whatever a reader gives has a property. -/
def Gives (read? : JsonTree → Option α) (holds : α → Prop) : Prop :=
  ∀ tree meaning, read? tree = some meaning → holds meaning

theorem Gives.list (h : Gives read? holds) :
    Gives (list? read?) fun list => ∀ element ∈ list, holds element := by
  intro tree list hlist element helement
  cases tree with
  | array items =>
      obtain ⟨item, -, hitem⟩ := exists_of_map_m_eq_some hlist helement
      exact h item element hitem
  | _ => cases hlist

theorem Gives.optional (h : Gives read? holds) :
    Gives (optional? read?) fun optional => ∀ value ∈ optional, holds value := by
  intro tree optional hoptional value hvalue
  obtain rfl : optional = some value := hvalue
  cases tree with
  | null => cases hoptional
  | _ => exact h _ value (by simpa [optional?] using hoptional)

theorem Gives.field (h : Gives read? holds) {fields : List (String × JsonTree)} {name : String}
    {meaning : α} (hfield : field? fields name read? = some meaning) : holds meaning := by
  obtain ⟨tree, -, hread⟩ := Option.bind_eq_some_iff.mp hfield
  exact h tree meaning hread

/-- A field that may be left out has the property if what stands for an absent one does. -/
theorem Gives.field_or (h : Gives read? holds) {fields : List (String × JsonTree)} {name : String}
    {absent meaning : α} (habsent : holds absent)
    (hfield : fieldOr? fields name absent read? = some meaning) : holds meaning := by
  rw [fieldOr?] at hfield
  split at hfield
  next => exact h _ meaning hfield
  next =>
    obtain rfl := Option.some.inj hfield
    exact habsent

/-- A path that is read is spellable, since its text is parsed. -/
theorem gives_path : Gives path? PrimPath.Spellable := by
  intro tree path hread
  obtain ⟨text, -, hparse⟩ := Option.bind_eq_some_iff.mp hread
  cases hpath : PrimPath.parse text with
  | error error => simp [hpath, Except.toOption] at hparse
  | ok found =>
      obtain rfl : found = path := by simpa [hpath, Except.toOption] using hparse
      exact PrimPath.spellable_of_parse hpath

theorem gives_property_path : Gives propertyPath? PropertyPath.Spellable := by
  intro tree path hread
  obtain ⟨text, -, hparse⟩ := Option.bind_eq_some_iff.mp hread
  cases hpath : PropertyPath.parse text with
  | error error => simp [hpath, Except.toOption] at hparse
  | ok found =>
      obtain rfl : found = path := by simpa [hpath, Except.toOption] using hparse
      exact PropertyPath.spellable_of_parse hpath

theorem gives_attribute_description :
    Gives attributeDescription? AttributeDescription.Spellable := by
  intro tree description hread
  simp only [attributeDescription?, Option.bind_eq_bind, Option.bind_eq_some_iff, Option.pure_def,
    Option.some.injEq] at hread
  obtain ⟨fields, -, _, -, _, -, _, -, connections, hconnections, _, -, rfl⟩ := hread
  exact gives_property_path.list.optional.field_or (by simp) hconnections

/-- A prim that is read names only spellable paths. -/
theorem gives_prim_description : Gives primDescription? PrimDescription.Spellable := by
  intro tree description hread
  simp only [primDescription?, Option.bind_eq_bind, Option.bind_eq_some_iff, Option.pure_def,
    Option.some.injEq] at hread
  obtain ⟨fields, -, path, hpath, _, -, _, -, _, -, attributes, hattributes, references,
    hreferences, specializes, hspecializes, _, -, _, -, rfl⟩ := hread
  exact ⟨gives_path.field hpath, gives_attribute_description.list.field_or (by simp) hattributes,
    gives_path.list.field_or (by simp) hreferences,
    gives_path.list.optional.field_or (by simp) hspecializes⟩

theorem gives_layer_description :
    Gives layerDescription? fun description => ∀ part ∈ description.prims, part.Spellable := by
  intro tree description hread
  simp only [layerDescription?, Option.bind_eq_bind, Option.bind_eq_some_iff, Option.pure_def,
    Option.some.injEq] at hread
  obtain ⟨fields, -, _, -, prims, hprims, rfl⟩ := hread
  exact gives_prim_description.list.field_or (by simp) hprims

/-- A description that is read names only spellable paths. -/
theorem gives_scene_description : Gives sceneDescription? SceneDescription.Spellable := by
  intro tree description hread
  simp only [sceneDescription?, Option.bind_eq_bind, Option.bind_eq_some_iff, Option.pure_def,
    Option.some.injEq] at hread
  obtain ⟨fields, -, layers, hlayers, rfl⟩ := hread
  exact gives_layer_description.list.field hlayers

end JsonTree

end LayeredShading
