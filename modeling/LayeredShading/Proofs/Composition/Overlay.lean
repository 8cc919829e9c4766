import LayeredShading.Proofs.Composition.Extent

/-!
# Overlays, strongest opinion first

A composed prim is a left fold of overlays. `overlay_all_open` reads that fold field by field: what
the strongest opinion leaves open the next one fills in, so a field is the first one that an
opinion authors. The rest of the module draws this for the type of a composed prim and for the
type, the default and the connections of its attributes.
-/

namespace LayeredShading

namespace Opinion

/-- What an opinion says about an attribute in the names of the composed scene. -/
def attribute? (opinion : Opinion) (name : String) : Option AttributeSpec :=
  opinion.localized.attributes.get? name

/-- Only attributes with the name of a property count, with their connections moved. -/
theorem attribute_eq (opinion : Opinion) (name : String) :
    opinion.attribute? name =
      if isPropertyName name then
        (opinion.spec.attributes.get? name).map fun spec =>
          { spec with connections := spec.connections.map (·.map opinion.map.apply) }
      else none := by
  rw [attribute?, localized, SortedMap.get?_mapValues, SortedMap.get?_filterKeys]
  split <;> rfl

/-- What an overlay of two specs makes of a field, the overlay of all opinions makes of it one
opinion after the other. -/
theorem overlay_all_fold {β : Type} (field : PrimSpec → β) (combine : β → β → β)
    (hoverlay : ∀ strong weak : PrimSpec,
      field (strong.overlay weak) = combine (field strong) (field weak))
    (opinions : List Opinion) :
    field (overlayAll opinions) =
      (opinions.map fun opinion => field opinion.localized).foldl combine
        (field (.blank .override)) := by
  rw [List.foldl_map]
  exact (List.foldl_hom field fun _ _ => (hoverlay _ _).symm).symm

/-- A field that a strong opinion on its own decides, if it authors it, is decided by the first
opinion that authors it. -/
theorem overlay_all_open {β : Type} (field : PrimSpec → Option β)
    (hblank : field (.blank .override) = none)
    (hoverlay : ∀ strong weak : PrimSpec,
      field (strong.overlay weak) = (field strong <|> field weak))
    (opinions : List Opinion) :
    field (overlayAll opinions) = opinions.findSome? fun opinion => field opinion.localized := by
  -- The fold starts from a blank spec, but the induction needs any start.
  have hfold : ∀ (values : List (Option β)) (start : Option β),
      values.foldl (fun strong weak => strong <|> weak) start =
        (start <|> values.findSome? id) := by
    intro values
    induction values with
    | nil => simp
    | cons value rest ih =>
        intro start
        rw [List.foldl_cons, ih, List.findSome?_cons]
        cases start <;> cases value <;> simp
  rw [overlay_all_fold field (fun strong weak => strong <|> weak) hoverlay, hfold, hblank,
    List.findSome?_map]
  rfl

/-- A list to which every opinion adds what it does not hold yet has the elements of all
opinions, each at its first place. -/
theorem overlay_all_added {β : Type} [DecidableEq β] (field : PrimSpec → List β)
    (hblank : field (.blank .override) = [])
    (hoverlay : ∀ strong weak : PrimSpec,
      field (strong.overlay weak) = addAllNew (field strong) (field weak))
    (opinions : List Opinion) :
    field (overlayAll opinions) =
      (opinions.flatMap fun opinion => field opinion.localized).eraseDups := by
  rw [overlay_all_fold field addAllNew hoverlay, hblank, ← addAllNew_nil, List.flatMap_def]
  exact List.foldl_flatten.symm

/-- The type of an overlay is the first authored one. -/
theorem overlay_all_type_name (opinions : List Opinion) :
    (overlayAll opinions).typeName = opinions.findSome? fun opinion => opinion.spec.typeName :=
  overlay_all_open (·.typeName) rfl (fun _ _ => rfl) opinions

/-- A field of an attribute is decided by the first opinion that authors it. -/
theorem overlay_all_attribute {β : Type} (field : AttributeSpec → Option β)
    (hoverlay : ∀ strong weak : AttributeSpec,
      field (strong.overlay weak) = (field strong <|> field weak))
    (opinions : List Opinion) (name : String) :
    ((overlayAll opinions).attributes.get? name).bind field =
      opinions.findSome? fun opinion => (opinion.attribute? name).bind field := by
  refine overlay_all_open (fun spec => (spec.attributes.get? name).bind field) rfl ?_ opinions
  intro strong weak
  show ((strong.attributes.merge AttributeSpec.overlay weak.attributes).get? name).bind field = _
  rw [SortedMap.get?_merge]
  cases strong.attributes.get? name <;> cases weak.attributes.get? name <;> simp [hoverlay]

/-- The variant sets of an overlay add up. -/
theorem overlay_all_variant_sets (opinions : List Opinion) :
    (overlayAll opinions).variantSets =
      (opinions.map (·.spec.variantSets)).foldl overlayVariantSets [] :=
  overlay_all_fold (·.variantSets) overlayVariantSets (fun _ _ => rfl) opinions

/-- The selection in a set is the first one that an opinion makes. -/
theorem overlay_all_selection (opinions : List Opinion) (set : String) :
    (overlayAll opinions).variantSelection.get? set =
      opinions.findSome? fun opinion => opinion.spec.variantSelection.get? set := by
  refine overlay_all_open (·.variantSelection.get? set) rfl (fun strong weak => ?_) opinions
  show (strong.variantSelection.merge (fun selected _ => selected)
    weak.variantSelection).get? set = _
  rw [SortedMap.get?_merge]
  cases strong.variantSelection.get? set <;> cases weak.variantSelection.get? set <;> rfl

/-- Specs that declare no variants add none. -/
theorem foldl_overlay_variant_sets_of_nil {specs : List PrimSpec}
    (h : ∀ spec ∈ specs, spec.variantSets = []) (sets : List VariantSetSpec) :
    (specs.map (·.variantSets)).foldl overlayVariantSets sets = sets := by
  induction specs with
  | nil => rfl
  | cons spec rest ih =>
      rw [List.map_cons, List.foldl_cons, h spec List.mem_cons_self]
      exact ih fun other hother => h other (List.mem_cons_of_mem _ hother)

/-- Where one spec alone declares variants, in one set, those are declared. -/
theorem variant_sets_of_single {front back : List PrimSpec} {spec : PrimSpec}
    {set : VariantSetSpec} (hothers : ∀ other ∈ front ++ back, other.variantSets = [])
    (hspec : spec.variantSets = [set]) (hdistinct : set.variants.Nodup) :
    ((front ++ spec :: back).map (·.variantSets)).foldl overlayVariantSets [] = [set] := by
  have hset : overlayVariantSets [] [set] = [set] := by
    show [VariantSetSpec.mk set.name (addAllNew [] set.variants)] = [set]
    rw [addAllNew_of_nodup (by simpa using hdistinct), List.nil_append]
  have hfront : (front.map (·.variantSets)).foldl overlayVariantSets [] = [] :=
    foldl_overlay_variant_sets_of_nil (fun other hother => hothers other (by simp [hother])) []
  have hback : (back.map (·.variantSets)).foldl overlayVariantSets [set] = [set] :=
    foldl_overlay_variant_sets_of_nil (fun other hother => hothers other (by simp [hother])) [set]
  rw [List.map_append, List.foldl_append, List.map_cons, List.foldl_cons, hspec, hfront, hset,
    hback]

end Opinion

/-! ## Fields of composed prims -/

section Compose

open Opinion

variable {layers : List Layer} {path : PrimPath}

/-- The composed attribute of a name describes that name in the overlay of the opinions. -/
theorem attribute_of_compose {prim : ComposedPrim} (h : compose layers path = some prim)
    (name : String) :
    prim.attribute? name =
      ((overlayAll (gather layers path)).attributes.get? name).map (.ofSpec path name) := by
  rw [compose_eq_some h]
  exact SortedMap.get?_mapValues _ _ _

/-- The type of a prim is the first authored one. -/
theorem compose_type_name (hroot : path.isRoot = false) (hplain : path.hasChoices = false) :
    (compose layers path).bind (·.typeName) =
      (gather layers path).findSome? fun opinion => opinion.spec.typeName := by
  cases hprim : compose layers path with
  | none => simp [gather_eq_nil_of_compose hroot hplain hprim]
  | some prim =>
      rw [Option.bind_some, compose_eq_some hprim]
      exact overlay_all_type_name _

/-- A field of a composed attribute is decided by the first opinion that authors it. -/
theorem compose_attribute (hroot : path.isRoot = false) (hplain : path.hasChoices = false)
    {β : Type} (field : AttributeSpec → Option β) (composed : ComposedAttribute → Option β)
    (name : String) (hcomposed : ∀ spec, composed (.ofSpec path name spec) = field spec)
    (hoverlay : ∀ strong weak : AttributeSpec,
      field (strong.overlay weak) = (field strong <|> field weak)) :
    ((compose layers path).bind (·.attribute? name)).bind composed =
      (gather layers path).findSome? fun opinion => (opinion.attribute? name).bind field := by
  cases hprim : compose layers path with
  | none => simp [gather_eq_nil_of_compose hroot hplain hprim]
  | some prim =>
      rw [Option.bind_some, attribute_of_compose hprim, ← overlay_all_attribute field hoverlay]
      cases (overlayAll (gather layers path)).attributes.get? name <;> simp [hcomposed]

end Compose

end LayeredShading
