import LayeredShading.Proofs.Composition.Overlay
import LayeredShading.Proofs.Composition.SingleArc

/-!
# Overlays over a source

Where the own opinions on a prim come before those on another one, moved into its names, the prim is
the overlay of its own opinions over the other composed prim. `Overlays` says what that means for
the parts of a composed prim, and `overlays_of_gather` reads it off the order of the opinions. So a
prim from which a single arc leads overlays the source of the arc (`overlays_of_single_target`).
-/

namespace LayeredShading

/-- The property moved with its prim from below `source` to below `target`. -/
def PropertyPath.moved (path : PropertyPath) (source target : PrimPath) : PropertyPath :=
  path.withPrim (path.prim.moved source target)

/-- What an attribute spec says, with its connections moved. -/
def AttributeSpec.moved (spec : AttributeSpec) (source target : PrimPath) : AttributeSpec :=
  { spec with connections := spec.connections.map (·.map (·.moved source target)) }

/-- The connections of an attribute, none where it does not compose. -/
def connectionsOf (prim? : Option ComposedPrim) (name : String) : List PropertyPath :=
  ((prim?.bind (·.attribute? name)).map (·.connections)).getD []

/-- A prim is what its own opinions say, laid over a weaker prim whose connections are moved from
below `source` to below `target`. -/
structure Overlays (own : List Opinion) (source target : PrimPath)
    (weaker overlaid : Option ComposedPrim) : Prop where
  composes : overlaid.isSome = true ↔ own ≠ [] ∨ weaker.isSome = true
  type_name : overlaid.bind (·.typeName) =
    (own.findSome? (·.spec.typeName)).or (weaker.bind (·.typeName))
  attribute_type : ∀ name, isPropertyName name = true →
    (overlaid.bind (·.attribute? name)).map (·.type) =
      (own.findSome? fun opinion => (opinion.spec.attributes.get? name).map (·.type)).or
        ((weaker.bind (·.attribute? name)).map (·.type))
  attribute_default : ∀ name, isPropertyName name = true →
    (overlaid.bind (·.attribute? name)).bind (·.default) =
      (own.findSome? fun opinion => (opinion.spec.attributes.get? name).bind (·.default)).or
        ((weaker.bind (·.attribute? name)).bind (·.default))
  connections : ∀ name, isPropertyName name = true → connectionsOf overlaid name =
    (own.findSome? fun opinion => (opinion.spec.attributes.get? name).bind (·.connections)).getD
      ((connectionsOf weaker name).map (·.moved source target))
  children : (overlaid.map (·.children)).getD [] =
    addAllNew (addAllNew [] (own.flatMap Opinion.childNames))
      ((weaker.map (·.children)).getD [])

namespace Opinion

/-! ## Opinions with moved names -/

/-- An opinion on the prim itself says what its spec says. -/
theorem attribute_of_identity {opinion : Opinion} (h : opinion.map = .identity) {name : String}
    (hname : isPropertyName name = true) :
    opinion.attribute? name = opinion.spec.attributes.get? name := by
  have hidentity : ∀ path : PropertyPath, NamespaceMap.identity.apply path = path := fun _ => rfl
  have hmap : (NamespaceMap.identity.apply : PropertyPath → PropertyPath) = id := funext hidentity
  rw [attribute_eq, if_pos hname, h, hmap]
  cases opinion.spec.attributes.get? name with
  | none => rfl
  | some spec =>
      obtain ⟨type, default, connections, custom⟩ := spec
      cases connections <;> simp

/-- An opinion whose names are moved further has its connections moved further. -/
theorem attribute_followed_by (opinion : Opinion) (source target : PrimPath) (name : String) :
    (opinion.followedBy source target).attribute? name =
      (opinion.attribute? name).map (·.moved source target) := by
  have hmap : ∀ path : PropertyPath, (opinion.map.followedBy source target).apply path =
      (opinion.map.apply path).moved source target := by
    intro path
    show path.withPrim ((opinion.map.followedBy source target).applyPrim path.prim) = _
    rw [NamespaceMap.apply_prim_followed_by]
    rfl
  rw [attribute_eq, attribute_eq]
  by_cases hname : isPropertyName name = true
  · simp only [hname, if_true, followedBy, Option.map_map]
    congr 1
    funext spec
    obtain ⟨type, default, connections, custom⟩ := spec
    cases connections <;> simp [AttributeSpec.moved, hmap]
  · simp [hname]

/-- The first own opinion that authors a field of an attribute is the first whose spec does. -/
theorem find_some_of_identity {β : Type} {own : List Opinion}
    (hidentity : ∀ opinion ∈ own, opinion.map = .identity) (field : AttributeSpec → Option β)
    {name : String} (hname : isPropertyName name = true) :
    (own.findSome? fun opinion => (opinion.attribute? name).bind field) =
      own.findSome? fun opinion => (opinion.spec.attributes.get? name).bind field := by
  induction own with
  | nil => rfl
  | cons opinion rest ih =>
      have hfirst := attribute_of_identity (hidentity opinion List.mem_cons_self) hname
      rw [List.findSome?_cons, List.findSome?_cons, hfirst,
        ih fun other hother => hidentity other (List.mem_cons_of_mem _ hother)]

/-- Moving names keeps what the first opinion that authors a field says, but for moving the field
as well. -/
theorem find_some_followed_by {β : Type} (field : AttributeSpec → Option β) (move : β → β)
    {source target : PrimPath}
    (hmove : ∀ spec : AttributeSpec, field (spec.moved source target) = (field spec).map move)
    (opinions : List Opinion) (name : String) :
    ((opinions.map fun opinion => opinion.followedBy source target).findSome? fun opinion =>
        (opinion.attribute? name).bind field) =
      (opinions.findSome? fun opinion => (opinion.attribute? name).bind field).map move := by
  rw [List.findSome?_map, List.map_findSome?]
  congr 1
  funext opinion
  simp only [Function.comp_apply, attribute_followed_by]
  cases opinion.attribute? name with
  | none => rfl
  | some spec => exact hmove spec

end Opinion

/-! ## Overlays from the order of opinions -/

section Compose

open Opinion

variable {layers : List Layer} {path : PrimPath}

/-- The type of a composed attribute is that of the first opinion on it. -/
theorem attribute_type_of_compose (hroot : path.isRoot = false) (hplain : path.hasChoices = false)
    (name : String) :
    ((compose layers path).bind (·.attribute? name)).map (·.type) =
      (gather layers path).findSome? fun opinion =>
        (opinion.attribute? name).bind fun spec => some spec.type := by
  rw [Option.map_eq_bind]
  exact compose_attribute hroot hplain _ _ name (fun _ => rfl) fun _ _ => rfl

/-- The default of a composed attribute is that of the first opinion that authors one. -/
theorem attribute_default_of_compose (hroot : path.isRoot = false)
    (hplain : path.hasChoices = false) (name : String) :
    ((compose layers path).bind (·.attribute? name)).bind (·.default) =
      (gather layers path).findSome? fun opinion =>
        (opinion.attribute? name).bind (·.default) :=
  compose_attribute hroot hplain _ _ name (fun _ => rfl) fun _ _ => rfl

/-- The connections of a composed attribute are those of the first opinion that authors any. -/
theorem connections_of_compose (hroot : path.isRoot = false) (hplain : path.hasChoices = false)
    (name : String) :
    connectionsOf (compose layers path) name =
      ((gather layers path).findSome? fun opinion =>
        (opinion.attribute? name).bind (·.connections)).getD [] := by
  cases hprim : compose layers path with
  | none => simp [connectionsOf, gather_eq_nil_of_compose hroot hplain hprim]
  | some prim =>
      rw [connectionsOf, Option.bind_some, attribute_of_compose hprim,
        ← overlay_all_attribute (·.connections) fun _ _ => rfl]
      cases (overlayAll (gather layers path)).attributes.get? name <;> rfl

/-- The children of a composed prim are the names that its opinions list. -/
theorem children_of_compose (hroot : path.isRoot = false) (hplain : path.hasChoices = false) :
    ((compose layers path).map (·.children)).getD [] =
      addAllNew [] ((gather layers path).flatMap Opinion.childNames) := by
  cases hprim : compose layers path with
  | none => simp [gather_eq_nil_of_compose hroot hplain hprim, addAllNew]
  | some prim =>
      rw [compose_eq_some hprim]
      rfl

/-- A prim whose own opinions come before those on a source, moved into its names, overlays the
prim at the source. -/
theorem overlays_of_gather {own : List Opinion} {source target sourcePath : PrimPath}
    (hroot : path.isRoot = false) (hplain : path.hasChoices = false)
    (hsourceRoot : sourcePath.isRoot = false) (hsourcePlain : sourcePath.hasChoices = false)
    (hidentity : ∀ opinion ∈ own, opinion.map = .identity)
    (hgather : gather layers path =
      own ++ (gather layers sourcePath).map fun opinion => opinion.followedBy source target) :
    Overlays own source target (compose layers sourcePath) (compose layers path) := by
  -- A field goes to the own opinions first; from the source it comes as moving changes it.
  have hfield : ∀ {β : Type} (field : AttributeSpec → Option β) (move : β → β) (name : String),
      isPropertyName name = true →
      (∀ spec : AttributeSpec, field (spec.moved source target) = (field spec).map move) →
      ((gather layers path).findSome? fun opinion => (opinion.attribute? name).bind field) =
        (own.findSome? fun opinion => (opinion.spec.attributes.get? name).bind field).or
          (((gather layers sourcePath).findSome? fun opinion =>
            (opinion.attribute? name).bind field).map move) := by
    intro β field move name hname hmove
    rw [hgather, List.findSome?_append, find_some_of_identity hidentity field hname,
      find_some_followed_by field move hmove]
  refine ⟨?_, ?_, ?_, ?_, ?_, ?_⟩
  · rw [compose_is_some_iff, compose_is_some_iff, hgather]
    simp only [hroot, hplain, hsourceRoot, hsourcePlain, true_and, ne_eq,
      List.append_eq_nil_iff, List.map_eq_nil_iff]
    tauto
  · rw [compose_type_name hroot hplain, compose_type_name hsourceRoot hsourcePlain, hgather,
      List.findSome?_append, List.findSome?_map]
    rfl
  · intro name hname
    rw [attribute_type_of_compose hroot hplain,
      attribute_type_of_compose hsourceRoot hsourcePlain, hfield _ id name hname fun _ => rfl]
    simp only [Option.map_eq_bind, Function.comp_def, id_eq, Option.bind_fun_some]
  · intro name hname
    have hkept : ∀ spec : AttributeSpec,
        (spec.moved source target).default = spec.default.map id := by simp [AttributeSpec.moved]
    rw [attribute_default_of_compose hroot hplain,
      attribute_default_of_compose hsourceRoot hsourcePlain, hfield _ id name hname hkept,
      Option.map_id, id_eq]
  · intro name hname
    rw [connections_of_compose hroot hplain, connections_of_compose hsourceRoot hsourcePlain,
      hfield _ (·.map (·.moved source target)) name hname fun _ => rfl]
    cases own.findSome? fun opinion =>
      (opinion.spec.attributes.get? name).bind (·.connections) with
    | some sources => rfl
    | none =>
        cases (gather layers sourcePath).findSome? fun opinion =>
          (opinion.attribute? name).bind (·.connections) <;> rfl
  · rw [children_of_compose hroot hplain, children_of_compose hsourceRoot hsourcePlain, hgather,
      List.flatMap_append, List.flatMap_map, addAllNew_append, addAllNew_addAllNew]
    rfl

/-- The opinions on a prim below `prim` by its own specs and by those in the variants that are
chosen at `prim`. -/
def ownOpinions (layers : List Layer) (prim : PrimPath) (names : List String) : List Opinion :=
  atSite layers .identity (prim.descend names) ++
    (choicesAt layers prim).flatMap fun choice =>
      atSite layers .identity ((prim.descend names).choose prim.depth choice)

/-- An own opinion stands at a site of the prim. -/
theorem exists_site_of_own_opinion {prim : PrimPath} {names : List String} {opinion : Opinion}
    (h : opinion ∈ ownOpinions layers prim names) :
    ∃ site, site.stripChoices = (prim.descend names).stripChoices ∧
      opinion ∈ atSite layers .identity site := by
  rcases List.mem_append.mp h with h | h
  · exact ⟨_, rfl, h⟩
  · obtain ⟨choice, -, h⟩ := List.mem_flatMap.mp h
    exact ⟨_, PrimPath.strip_choose _ _ _, h⟩

/-- A prim below the only one that declares an arc and makes choices overlays the prim at the same
place below the source. -/
theorem overlays_of_single_target {owner source : PrimPath} {names : List String}
    (hplain : owner.hasChoices = false) (hsourcePlain : source.hasChoices = false)
    (hchoices : ∀ above ∈ (owner.descend names).ancestry, above ≠ owner →
      choicesAt layers above = [])
    (hothers : ∀ other ∈ (owner.descend names).ancestry, other ≠ owner →
      ∀ spec ∈ specsOn layers other, spec.arcTargets = [])
    (htargets : references (specsOn layers owner) ++ specialized (specsOn layers owner) = [source])
    (hapart : source.overlaps owner = false) (huntargeted : Untargeted layers owner)
    (hlength : ∀ chain, ArcChain layers (source.descend names :: chain) →
      chain.length + 1 < maxArcDepth) :
    Overlays (ownOpinions layers owner names) source owner
      (compose layers (source.descend names)) (compose layers (owner.descend names)) := by
  have hpos : 0 < owner.depth :=
    PrimPath.depth_pos_of_apart (PrimPath.overlaps_comm source owner ▸ hapart)
  have hsourcePos : 0 < source.depth := PrimPath.depth_pos_of_apart hapart
  refine overlays_of_gather ?_ ?_ ?_ ?_ ?_
    (gather_of_single_target hpos hchoices hothers htargets hapart huntargeted hlength)
  · rw [PrimPath.is_root_eq_false_iff, PrimPath.depth_descend]
    omega
  · rw [PrimPath.has_choices_descend, hplain]
  · rw [PrimPath.is_root_eq_false_iff, PrimPath.depth_descend]
    omega
  · rw [PrimPath.has_choices_descend, hsourcePlain]
  · intro opinion hopinion
    obtain ⟨site, -, hsite⟩ := exists_site_of_own_opinion hopinion
    exact (mem_at_site.mp hsite).2.2.2

end Compose

end LayeredShading
