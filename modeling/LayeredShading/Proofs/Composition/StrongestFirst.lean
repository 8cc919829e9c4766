import LayeredShading.Proofs.Composition.Overlay
import LayeredShading.Proofs.Metadata

/-!
# Composed prims, strongest opinion first

What a composed prim says can be read off the list of its opinions, without any overlay.
`StrongestFirst` says so part by part: whatever one opinion can decide is what the first one that
authors it says, and whatever adds up lists the elements of all opinions, each at its first place.
A composed prim is described by its opinions in this way and no other prim is
(`compose_strongest_first`).
-/

namespace LayeredShading

/-! ## Specifiers -/

/-- Specs together define their prim exactly if one of them does. -/
theorem Specifier.foldl_join_iff {specifiers : List Specifier} {start : Specifier} :
    specifiers.foldl join start = .define ↔ start = .define ∨ .define ∈ specifiers := by
  induction specifiers generalizing start with
  | nil => simp
  | cons head rest ih => cases start <;> cases head <;> simp [ih, join]

/-! ## Variant sets -/

/-- The variants that sets of one name declare, each at its first place. -/
def variantsIn (sets : List VariantSetSpec) (name : String) : List String :=
  ((sets.filter fun set => set.name == name).flatMap (·.variants)).eraseDups

theorem variants_in_append (sets : List VariantSetSpec) (set : VariantSetSpec) (name : String) :
    variantsIn (sets ++ [set]) name =
      if name = set.name then addAllNew (variantsIn sets name) set.variants
      else variantsIn sets name := by
  unfold variantsIn
  by_cases hname : name = set.name
  · simp [hname, ← addAllNew_nil, addAllNew_append]
  · simp [hname, Ne.symm hname]

/-- A set that no set is named like has no variants. -/
theorem variants_in_of_not_mem {sets : List VariantSetSpec} {name : String}
    (h : name ∉ sets.map (·.name)) : variantsIn sets name = [] := by
  have hnone : (sets.filter fun set => set.name == name) = [] := by
    refine List.filter_eq_nil_iff.mpr fun set hset hname => h ?_
    exact List.mem_map.mpr ⟨set, hset, beq_iff_eq.mp hname⟩
  rw [variantsIn, hnone]
  rfl

/-- Where each set has its own name, changing the set of a name changes its variants only, and
declares it at the end if it is new. -/
theorem change_variant_set_map {names : List String} (hdistinct : names.Nodup)
    (variants : String → List String) (name : String)
    (habsent : name ∉ names → variants name = []) (change : List String → List String) :
    changeVariantSet name change (names.map fun other => ⟨other, variants other⟩) =
      (addNew names name).map fun other =>
        ⟨other, if other = name then change (variants other) else variants other⟩ := by
  induction names with
  | nil => simp [changeVariantSet, addNew, habsent]
  | cons head rest ih =>
      obtain ⟨hhead, hrest⟩ := List.nodup_cons.mp hdistinct
      rw [List.map_cons, changeVariantSet]
      by_cases hname : head = name
      · subst hname
        have hothers : ∀ other ∈ rest, other ≠ head := fun other hother h => hhead (h ▸ hother)
        rw [if_pos rfl, addNew_of_mem List.mem_cons_self, List.map_cons, if_pos rfl]
        congr 1
        exact List.map_congr_left fun other hother => by rw [if_neg (hothers other hother)]
      · have hrestAbsent : name ∉ rest → variants name = [] := fun hmem =>
          habsent (List.not_mem_cons_of_ne_of_not_mem (Ne.symm hname) hmem)
        rw [if_neg hname, addNew_cons_of_ne (Ne.symm hname), List.map_cons, if_neg hname,
          ih hrest hrestAbsent]

/-- Declared one after the other, sets come in the order of their first declaration, each with the
variants of all declarations. -/
theorem overlay_variant_sets_nil (sets : List VariantSetSpec) :
    overlayVariantSets [] sets =
      (sets.map (·.name)).eraseDups.map fun name => ⟨name, variantsIn sets name⟩ := by
  induction sets using List.reverseRecOn with
  | nil => rfl
  | append_singleton sets set ih =>
      have hstep : overlayVariantSets [] (sets ++ [set]) =
          changeVariantSet set.name (addAllNew · set.variants) (overlayVariantSets [] sets) := by
        simp [overlayVariantSets, List.foldl_append]
      have hnames : ((sets ++ [set]).map (·.name)).eraseDups =
          addNew (sets.map (·.name)).eraseDups set.name := by
        rw [List.map_append, ← addAllNew_nil, addAllNew_append, addAllNew_nil]
        rfl
      have habsent : set.name ∉ (sets.map (·.name)).eraseDups → variantsIn sets set.name = [] :=
        fun h => variants_in_of_not_mem fun hmem => h (List.mem_eraseDups.mpr hmem)
      rw [hstep, ih, hnames, change_variant_set_map (nodup_eraseDups _) _ _ habsent]
      simp only [variants_in_append]

/-! ## Overlays -/

namespace Opinion

theorem overlay_all_define_iff {opinions : List Opinion} :
    (overlayAll opinions).specifier = .define ↔
      ∃ opinion ∈ opinions, opinion.spec.specifier = .define := by
  rw [overlay_all_fold (·.specifier) Specifier.join (fun _ _ => rfl), Specifier.foldl_join_iff]
  simp [PrimSpec.blank, localized]

/-- A field of a property is decided by the first opinion that authors it. -/
theorem overlay_all_property {β : Type} (field : AttributeSpec → Option β)
    (hoverlay : ∀ strong weak : AttributeSpec,
      field (strong.overlay weak) = (field strong <|> field weak))
    (opinions : List Opinion) {name : String} (hname : isPropertyName name = true) :
    ((overlayAll opinions).attributes.get? name).bind field =
      opinions.findSome? fun opinion => (opinion.spec.attributes.get? name).bind fun spec =>
        field { spec with connections := spec.connections.map (·.map opinion.map.apply) } := by
  rw [overlay_all_attribute field hoverlay]
  simp only [attribute_eq, hname, if_true, Option.bind_map]
  rfl

/-- A property is declared by the first opinion that says anything about it, while its default and
its connections come each from the first opinion that authors them. -/
theorem overlay_all_property_eq (opinions : List Opinion) {name : String}
    (hname : isPropertyName name = true) :
    (overlayAll opinions).attributes.get? name =
      (opinions.findSome? fun opinion => opinion.spec.attributes.get? name).map fun first =>
        { type := first.type
          default := opinions.findSome? fun opinion =>
            (opinion.spec.attributes.get? name).bind (·.default)
          connections := opinions.findSome? fun opinion =>
            (opinion.spec.attributes.get? name).bind fun spec =>
              spec.connections.map (·.map opinion.map.apply)
          custom := first.custom } := by
  let declaration (spec : AttributeSpec) : ValueType × Bool := (spec.type, spec.custom)
  have hfirst : ((overlayAll opinions).attributes.get? name).map declaration =
      (opinions.findSome? fun opinion => opinion.spec.attributes.get? name).map declaration := by
    rw [Option.map_eq_bind, List.map_findSome?,
      overlay_all_property (some ∘ declaration) (fun _ _ => rfl) opinions hname]
    exact congrArg (opinions.findSome? ·) (funext fun _ => Option.map_eq_bind.symm)
  rw [← overlay_all_property (·.default) (fun _ _ => rfl) opinions hname,
    ← overlay_all_property (·.connections) (fun _ _ => rfl) opinions hname]
  cases hspec : (overlayAll opinions).attributes.get? name with
  | none =>
      rw [hspec] at hfirst
      rw [Option.map_eq_none_iff.mp hfirst.symm]
      rfl
  | some spec =>
      rw [hspec] at hfirst
      obtain ⟨first, hfirst, hsame⟩ := Option.map_eq_some_iff.mp hfirst.symm
      obtain ⟨htype, hcustom⟩ := Prod.ext_iff.mp hsame
      rw [hfirst, Option.map_some, show first.type = spec.type from htype,
        show first.custom = spec.custom from hcustom]
      rfl

/-- A name that is no property name is not the name of an attribute. -/
theorem overlay_all_property_eq_none (opinions : List Opinion) {name : String}
    (hname : isPropertyName name = false) : (overlayAll opinions).attributes.get? name = none := by
  rw [← Option.map_eq_none_iff (f := (·.type)), Option.map_eq_bind,
    overlay_all_attribute (some ∘ (·.type)) fun _ _ => rfl]
  simp [attribute_eq, hname]

/-- The variant sets of an overlay come in the order of their first declaration. -/
theorem overlay_all_variant_sets_eq (opinions : List Opinion) :
    (overlayAll opinions).variantSets =
      let sets := opinions.flatMap fun opinion => opinion.spec.variantSets
      (sets.map (·.name)).eraseDups.map fun name => ⟨name, variantsIn sets name⟩ := by
  rw [overlay_all_variant_sets, ← overlay_variant_sets_nil, List.flatMap_def]
  exact List.foldl_flatten.symm

/-- No two sets of an overlay have the same name. -/
theorem names_overlay_all_nodup (opinions : List Opinion) :
    ((overlayAll opinions).variantSets.map (·.name)).Nodup := by
  rw [overlay_all_variant_sets_eq, List.map_map, Function.comp_def, List.map_id']
  exact nodup_eraseDups _

end Opinion

/-! ## Composed prims -/

/-- What a prim says, read off its opinions from the strongest to the weakest. -/
structure ComposedPrim.StrongestFirst (prim : ComposedPrim) (path : PrimPath)
    (opinions : List Opinion) : Prop where
  path_eq : prim.path = path
  defined_iff : prim.defined = true ↔ ∃ opinion ∈ opinions, opinion.spec.specifier = .define
  type_name : prim.typeName = opinions.findSome? fun opinion => opinion.spec.typeName
  metadata_keys : prim.metadata.keys =
    (opinions.flatMap fun opinion => opinion.spec.metadata.keys).eraseDups
  metadata_value : ∀ key, prim.metadata.get? key =
    opinions.findSome? fun opinion => opinion.spec.metadata.get? key
  /-- A property name is the name of an attribute if any opinion says something about it. Type and
  custom flag are those of the first such opinion. An authored list of connections counts also if
  it is empty, and its targets are moved by the map of the opinion that authors it. -/
  attribute_named : ∀ name, prim.attribute? name =
    if isPropertyName name then
      (opinions.findSome? fun opinion => opinion.spec.attributes.get? name).map fun first =>
        { path := ⟨path, name⟩
          type := first.type
          default := opinions.findSome? fun opinion =>
            (opinion.spec.attributes.get? name).bind (·.default)
          connections := (opinions.findSome? fun opinion =>
            (opinion.spec.attributes.get? name).bind fun spec =>
              spec.connections.map (·.map opinion.map.apply)).getD []
          custom := first.custom }
    else none
  references : prim.references =
    (opinions.flatMap fun opinion => opinion.spec.references).eraseDups
  specializes : prim.specializes =
    (opinions.findSome? fun opinion => opinion.spec.specializes).getD []
  /-- Sets come in the order of their first declaration. The first authored selection in a set
  counts if its variant is declared. -/
  variant_sets : prim.variantSets =
    let sets := opinions.flatMap fun opinion => opinion.spec.variantSets
    (sets.map (·.name)).eraseDups.map fun name =>
      ⟨name, variantsIn sets name,
        (opinions.findSome? fun opinion => opinion.spec.variantSelection.get? name).filter
          fun variant => (variantsIn sets name).contains variant⟩
  children : prim.children =
    (opinions.flatMap fun opinion => opinion.layer.childNames opinion.site).eraseDups

namespace ComposedPrim

open Opinion

/-- The overlay of opinions says what the strongest opinions say. -/
theorem strongest_first_of_spec (path : PrimPath) (opinions : List Opinion) :
    (ofSpec path (overlayAll opinions)
      (addAllNew [] (opinions.flatMap childNames))).StrongestFirst path opinions where
  path_eq := rfl
  defined_iff := decide_eq_true_iff.trans overlay_all_define_iff
  type_name := overlay_all_type_name opinions
  metadata_keys :=
    overlay_all_added (·.metadata.keys) rfl (fun _ _ => Metadata.keys_fill_from _ _) opinions
  metadata_value key :=
    overlay_all_open (·.metadata.get? key) rfl (fun _ _ => Metadata.get_fill_from _ _ key) opinions
  attribute_named name := by
    have hspec : (ofSpec path (overlayAll opinions)
        (addAllNew [] (opinions.flatMap childNames))).attribute? name =
          ((overlayAll opinions).attributes.get? name).map (.ofSpec path name) :=
      SortedMap.get?_mapValues _ _ _
    rw [hspec]
    split
    next hname =>
      rw [overlay_all_property_eq opinions hname, Option.map_map]
      rfl
    next hname =>
      rw [overlay_all_property_eq_none opinions (Bool.eq_false_iff.mpr hname), Option.map_none]
  references := overlay_all_added (·.references) rfl (fun _ _ => rfl) opinions
  specializes := congrArg (·.getD [])
    (overlay_all_open (·.specializes) rfl (fun _ _ => rfl) opinions)
  variant_sets := by
    simp only [ofSpec, overlay_all_variant_sets_eq, List.map_map, overlay_all_selection]
    rfl
  children := addAllNew_nil _

/-- The opinions leave nothing about a prim open. -/
theorem StrongestFirst.unique {prim other : ComposedPrim} {path : PrimPath}
    {opinions : List Opinion} (h : prim.StrongestFirst path opinions)
    (hother : other.StrongestFirst path opinions) : prim = other := by
  have hdistinct : prim.metadata.keys.Nodup := by
    rw [h.metadata_keys]
    exact nodup_eraseDups _
  have hmetadata : prim.metadata = other.metadata :=
    Metadata.ext_get hdistinct (h.metadata_keys.trans hother.metadata_keys.symm)
      fun key => (h.metadata_value key).trans (hother.metadata_value key).symm
  have hattributes : prim.attributes = other.attributes :=
    SortedMap.ext_get? fun name => (h.attribute_named name).trans (hother.attribute_named name).symm
  have hdefined : prim.defined = other.defined :=
    Bool.eq_iff_iff.mpr (h.defined_iff.trans hother.defined_iff.symm)
  cases prim
  cases other
  simp only [mk.injEq]
  exact ⟨h.path_eq.trans hother.path_eq.symm, hdefined, h.type_name.trans hother.type_name.symm,
    hmetadata, hattributes, h.references.trans hother.references.symm,
    h.specializes.trans hother.specializes.symm, h.variant_sets.trans hother.variant_sets.symm,
    h.children.trans hother.children.symm⟩

end ComposedPrim

/-- Composition is exact. Every opinion on a prim is the spec that its layer has at its site. The
root, a path with choices and a prim without opinions do not compose; and a prim is what composes
at any other path exactly if it says of everything what the strongest opinions say. -/
theorem compose_strongest_first (layers : List Layer) (path : PrimPath) :
    (∀ opinion ∈ Opinion.gather layers path,
      opinion.layer ∈ layers ∧ opinion.layer.spec? opinion.site = some opinion.spec) ∧
    (compose layers path = none ↔
      path.isRoot = true ∨ path.hasChoices = true ∨ Opinion.gather layers path = []) ∧
    ∀ prim, compose layers path = some prim ↔
      path.isRoot = false ∧ path.hasChoices = false ∧ Opinion.gather layers path ≠ [] ∧
        prim.StrongestFirst path (Opinion.gather layers path) := by
  refine ⟨fun _ => Opinion.authored_of_mem_gather, ?_, fun prim => ⟨fun hprim => ?_, ?_⟩⟩
  · rw [← Option.not_isSome_iff_eq_none, compose_is_some_iff]
    cases path.isRoot <;> cases path.hasChoices <;> simp
  · obtain ⟨hroot, hplain, hgather⟩ := compose_is_some_iff.mp (Option.isSome_of_eq_some hprim)
    refine ⟨hroot, hplain, hgather, ?_⟩
    rw [compose_eq_some hprim]
    exact ComposedPrim.strongest_first_of_spec path _
  · rintro ⟨hroot, hplain, hgather, hfirst⟩
    obtain ⟨composed, hcomposed⟩ :=
      Option.isSome_iff_exists.mp (compose_is_some_iff.mpr ⟨hroot, hplain, hgather⟩)
    have hspec := ComposedPrim.strongest_first_of_spec path (Opinion.gather layers path)
    rw [← compose_eq_some hcomposed] at hspec
    rw [hcomposed, hspec.unique hfirst]

/-- A prim that the strong layer declares an attribute of and takes its connections from, and that
refers to a base. The weak layer gives the attribute a value, which counts, and a connection, which
does not. The base connects an attribute of its own to one of its attributes. -/
def overruled : List Layer :=
  [⟨"strong", .ofList [(⟨[.plain "Look"]⟩, { PrimSpec.blank .override with
      references := [⟨[.plain "Base"]⟩]
      attributes := .ofList [("inputs:tint", ⟨.token, none, some [], true⟩)] })]⟩,
    ⟨"weak", .ofList [
      (⟨[.plain "Base"]⟩, { PrimSpec.blank .define with
        attributes := .ofList
          [("inputs:gain", ⟨.float, none, some [⟨⟨[.plain "Base"]⟩, "inputs:tint"⟩], false⟩)] }),
      (⟨[.plain "Look"]⟩, { PrimSpec.blank .define with
        attributes := .ofList [("inputs:tint",
          ⟨.token, some (.token "red"), some [⟨⟨[.plain "Base"]⟩, "inputs:gain"⟩], false⟩)] })]⟩]

/-- The prim has the weak value and no connection at the one attribute, and at the other one the
connection of the base, which leads to the prim itself. -/
theorem overruled_attributes_compose :
    ∃ prim, compose overruled ⟨[.plain "Look"]⟩ = some prim ∧
      prim.attribute? "inputs:tint" =
        some ⟨⟨⟨[.plain "Look"]⟩, "inputs:tint"⟩, .token, some (.token "red"), [], true⟩ ∧
      prim.attribute? "inputs:gain" =
        some ⟨⟨⟨[.plain "Look"]⟩, "inputs:gain"⟩, .float, none,
          [⟨⟨[.plain "Look"]⟩, "inputs:tint"⟩], false⟩ := by
  obtain ⟨prim, hprim⟩ :=
    Option.isSome_iff_exists.mp (by decide : (compose overruled ⟨[.plain "Look"]⟩).isSome = true)
  have hfirst :=
    (((compose_strongest_first overruled ⟨[.plain "Look"]⟩).2.2 prim).mp hprim).2.2.2
  exact ⟨prim, hprim, (hfirst.attribute_named _).trans (by decide),
    (hfirst.attribute_named _).trans (by decide)⟩

end LayeredShading
