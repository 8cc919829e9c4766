import LayeredShading.Proofs.Composition.Branching
import LayeredShading.Proofs.Stage.Operation

/-!
# Edits of one attribute

An operation on an attribute says nothing but what it says about the attribute, also where it makes
a spec. So with the attribute taken out of all specs (`PrimSpec.without`) the layers say the same
before and after it (`Layer.SameWithout`). Such layers have the same arcs and variants, hence the
same sites in the same order, and a spec that has been made is blank but for the attribute and adds
nothing to an overlay (`SameWithout.of_layers`). What composes is therefore the same but for the one
attribute of each prim (`Stage.attribute_edits_local`).
-/

namespace LayeredShading

open Opinion

/-! ## Specs without an attribute -/

namespace PrimSpec

/-- A spec with what it says about an attribute taken out. -/
def without (spec : PrimSpec) (name : String) : PrimSpec :=
  { spec with attributes := spec.attributes.erase name }

variable {name : String}

theorem without_of_attributes {spec other : PrimSpec}
    (h : { other with attributes := spec.attributes } = spec)
    (hattributes : ∀ key, key ≠ name → other.attributes.get? key = spec.attributes.get? key) :
    other.without name = spec.without name := by
  have herase : other.attributes.erase name = spec.attributes.erase name := by
    apply SortedMap.ext_get?
    intro key
    rw [SortedMap.get?_erase, SortedMap.get?_erase]
    split
    next => rfl
    next hkey => exact hattributes key hkey
  calc other.without name
      = { other with attributes := spec.attributes.erase name } := by rw [without, herase]
    _ = { ({ other with attributes := spec.attributes } : PrimSpec) with
          attributes := spec.attributes.erase name } := rfl
    _ = spec.without name := by rw [h, without]

theorem without_change_attribute (spec : PrimSpec) (declared : AttributeSpec)
    (edit : AttributeSpec → AttributeSpec) :
    (spec.changeAttribute name declared edit).without name = spec.without name := by
  refine without_of_attributes rfl fun key hkey => ?_
  show (spec.attributes.update name declared edit).get? key = _
  rw [SortedMap.get?_update, if_neg hkey]

theorem without_change_own_attribute (spec : PrimSpec) (edit : AttributeSpec → AttributeSpec) :
    (spec.changeOwnAttribute name edit).without name = spec.without name := by
  refine without_of_attributes rfl fun key hkey => ?_
  show (spec.attributes.modify name edit).get? key = _
  rw [SortedMap.get?_modify, if_neg hkey]

/-- Attributes do not meet in an overlay. -/
theorem without_overlay (strong weak : PrimSpec) :
    (strong.overlay weak).without name = (strong.without name).overlay (weak.without name) := by
  have hattributes : (strong.overlay weak).attributes.erase name =
      ((strong.without name).overlay (weak.without name)).attributes := by
    apply SortedMap.ext_get?
    intro key
    show ((strong.attributes.merge AttributeSpec.overlay weak.attributes).erase name).get? key =
      ((strong.attributes.erase name).merge AttributeSpec.overlay
        (weak.attributes.erase name)).get? key
    rw [SortedMap.get?_erase, SortedMap.get?_merge, SortedMap.get?_merge, SortedMap.get?_erase,
      SortedMap.get?_erase]
    split <;> rfl
  rw [without, hattributes]
  rfl

/-- A blank spec adds nothing to an overlay. -/
theorem overlay_blank (spec : PrimSpec) : spec.overlay (.blank .override) = spec := by
  have hspecifier : spec.specifier.join .override = spec.specifier := spec.specifier.join_override
  have htype : (spec.typeName <|> none) = spec.typeName := by cases spec.typeName <;> rfl
  have hspecializes : (spec.specializes <|> none) = spec.specializes := by
    cases spec.specializes <;> rfl
  show PrimSpec.mk (spec.specifier.join .override) (spec.typeName <|> none) spec.metadata
    spec.attributes spec.references (spec.specializes <|> none) spec.variantSets
    spec.variantSelection = spec
  rw [hspecifier, htype, hspecializes]

end PrimSpec

/-! ## Layers -/

/-- Two layers say the same but for an attribute, and where the first has a spec the second has
one. -/
structure Layer.SameWithout (name : String) (layer other : Layer) : Prop where
  authored : ∀ path, (layer.spec? path).isSome = true → (other.spec? path).isSome = true
  spec : ∀ path, (other.specOrBlank path).without name = (layer.specOrBlank path).without name

namespace Layer

variable {name : String}

theorem SameWithout.refl (layer : Layer) : layer.SameWithout name layer :=
  ⟨fun _ => id, fun _ => rfl⟩

theorem SameWithout.trans {first second third : Layer} (h : first.SameWithout name second)
    (hnext : second.SameWithout name third) : first.SameWithout name third :=
  ⟨fun path => hnext.authored path ∘ h.authored path,
    fun path => (hnext.spec path).trans (h.spec path)⟩

section Change

variable (layer : Layer) (site : PrimPath) {change : PrimSpec → PrimSpec}
  (hchange : ∀ spec : PrimSpec, (change spec).without name = spec.without name)

include hchange

theorem same_without_change_spec :
    layer.SameWithout name (layer.changeSpec site .override change) := by
  refine ⟨fun path => ?_, fun path => ?_⟩
  · rw [spec_change_spec]
    split
    next => exact fun _ => rfl
    next => exact id
  · rw [specOrBlank, specOrBlank, spec_change_spec]
    split
    next hpath =>
      rw [hpath, Option.getD_some, hchange, Specifier.join_override]
    next => rfl

theorem same_without_change_own_spec :
    layer.SameWithout name (layer.changeOwnSpec site change) := by
  have hspec : ∀ path, (layer.changeOwnSpec site change).spec? path =
      if path = site then (layer.spec? site).map change else layer.spec? path :=
    fun path => SortedMap.get?_modify _ _ _ _
  refine ⟨fun path => ?_, fun path => ?_⟩
  · rw [hspec]
    split
    next hpath =>
      subst hpath
      rw [Option.isSome_map]
      exact id
    next => exact id
  · rw [specOrBlank, specOrBlank, hspec]
    split
    next hpath =>
      subst hpath
      cases layer.spec? path with
      | none => rfl
      | some own => exact hchange own
    next => rfl

end Change

end Layer

/-! ## Opinions -/

namespace Opinion

variable {name : String}

/-- What an opinion says, without an attribute, is what it says of a spec without it. -/
theorem localized_without (opinion : Opinion) : opinion.localized.without name =
    { opinion with spec := opinion.spec.without name }.localized := by
  refine congrArg (fun attributes => { opinion.spec with attributes }) (SortedMap.ext_get? ?_)
  intro key
  show _ = Opinion.attribute? { opinion with spec := opinion.spec.without name } key
  rw [SortedMap.get?_erase, attribute_eq]
  show (if key = name then none else opinion.attribute? key) =
    if isPropertyName key then ((opinion.spec.attributes.erase name).get? key).map _ else none
  rw [attribute_eq, SortedMap.get?_erase]
  by_cases hkey : key = name
  · rw [if_pos hkey, if_pos hkey, Option.map_none, ite_self]
  · rw [if_neg hkey, if_neg hkey]

/-- An overlay of opinions, each without an attribute. -/
def overlayWithout (name : String) (start : PrimSpec) (opinions : List Opinion) : PrimSpec :=
  (opinions.map fun opinion => opinion.localized.without name).foldl PrimSpec.overlay start

theorem overlay_without_append (start : PrimSpec) (first second : List Opinion) :
    overlayWithout name start (first ++ second) =
      overlayWithout name (overlayWithout name start first) second := by
  rw [overlayWithout, List.map_append, List.foldl_append]
  rfl

/-- An overlay without an attribute is made of opinions without it. -/
theorem overlay_all_without (opinions : List Opinion) :
    (overlayAll opinions).without name = overlayWithout name (.blank .override) opinions := by
  -- The fold starts from a blank spec, but the induction needs any start.
  have hfold : ∀ start : PrimSpec,
      (opinions.foldl (fun overlaid opinion => overlaid.overlay opinion.localized)
        start).without name = overlayWithout name (start.without name) opinions := by
    induction opinions with
    | nil => exact fun _ => rfl
    | cons opinion rest ih =>
        intro start
        rw [List.foldl_cons, ih, PrimSpec.without_overlay]
        rfl
  exact hfold (.blank .override)

/-- Opinions say the same but for an attribute, and there are no fewer of them. -/
structure SameWithout (name : String) (before after : List Opinion) : Prop where
  length_le : before.length ≤ after.length
  overlay_eq : ∀ start, overlayWithout name start after = overlayWithout name start before

namespace SameWithout

theorem refl (opinions : List Opinion) : SameWithout name opinions opinions :=
  ⟨Nat.le_refl _, fun _ => rfl⟩

theorem append {first second more others : List Opinion} (h : SameWithout name first second)
    (hmore : SameWithout name more others) :
    SameWithout name (first ++ more) (second ++ others) where
  length_le := by
    have hfirst := h.length_le
    have hsecond := hmore.length_le
    rw [List.length_append, List.length_append]
    omega
  overlay_eq start := by
    rw [overlay_without_append, overlay_without_append, h.overlay_eq, hmore.overlay_eq]

end SameWithout

/-- The opinions at a site come from one layer after the other. -/
theorem at_site_cons (layer : Layer) (rest : List Layer) (map : NamespaceMap) (site : PrimPath) :
    atSite (layer :: rest) map site = atSite [layer] map site ++ atSite rest map site :=
  List.filterMap_append (l := [layer])

theorem at_site_singleton (layer : Layer) (map : NamespaceMap) (site : PrimPath) :
    atSite [layer] map site =
      ((layer.spec? site).map fun spec => (⟨layer, site, spec, map⟩ : Opinion)).toList := by
  rw [atSite, List.filterMap_cons]
  cases layer.spec? site <;> rfl

/-- A layer adds to an overlay what it says at the site, which is nothing if it has no spec. -/
theorem overlay_without_at_layer (start : PrimSpec) (layer : Layer) (map : NamespaceMap)
    (site : PrimPath) : overlayWithout name start (atSite [layer] map site) =
      start.overlay
        (Opinion.localized ⟨layer, site, (layer.specOrBlank site).without name, map⟩) := by
  rw [at_site_singleton, Layer.specOrBlank]
  cases layer.spec? site with
  | none => exact start.overlay_blank.symm
  | some spec => exact congrArg start.overlay (localized_without ⟨layer, site, spec, map⟩)

variable {layers others : List Layer} (h : List.Forall₂ (Layer.SameWithout name) layers others)

include h

theorem SameWithout.at_site (map : NamespaceMap) (site : PrimPath) :
    SameWithout name (atSite layers map site) (atSite others map site) := by
  induction h with
  | nil => exact .refl []
  | @cons layer other rest more hlayer _ ih =>
      rw [at_site_cons layer, at_site_cons other]
      refine SameWithout.append ⟨?_, fun start => ?_⟩ ih
      · have hauthored := hlayer.authored site
        rw [at_site_singleton, at_site_singleton]
        cases hspec : layer.spec? site with
        | none => exact Nat.zero_le _
        | some spec =>
            obtain ⟨found, hfound⟩ := Option.isSome_iff_exists.mp
              (hauthored (Option.isSome_of_eq_some hspec))
            rw [hfound]
            exact Nat.le_refl 1
      · rw [overlay_without_at_layer, overlay_without_at_layer, hlayer.spec site]
        rfl

/-- Arcs, variants and selections are no attributes. -/
theorem Alike.of_same_without : Alike layers others := by
  intro site
  induction h with
  | nil => rfl
  | @cons layer other rest more hlayer _ ih =>
      have hbranching : other.branchingAt site = layer.branchingAt site := by
        have hwithout := congrArg PrimSpec.branching (hlayer.spec site)
        exact hwithout
      rw [List.map_cons, List.map_cons, hbranching, ih]

/-- Layers that say the same but for an attribute give a prim the same opinions but for it. -/
theorem SameWithout.of_layers (path : PrimPath) :
    SameWithout name (gather layers path) (gather others path) :=
  (Alike.of_same_without h).gather_related (.refl []) SameWithout.append
    (SameWithout.at_site h) path

end Opinion

/-! ## Composed prims -/

section Compose

variable {name : String} {layers others : List Layer} {path : PrimPath}
  (h : List.Forall₂ (Layer.SameWithout name) layers others)

include h

/-- The overlays of all opinions are the same but for an attribute. -/
theorem overlay_all_same_without : (overlayAll (gather others path)).without name =
    (overlayAll (gather layers path)).without name := by
  rw [overlay_all_without, overlay_all_without, (SameWithout.of_layers h path).overlay_eq]

/-- The composed attribute of another name is the same. -/
theorem compose_attribute_same_without {key : String} (hkey : key ≠ name) :
    (compose others path).bind (·.attribute? key) =
      (compose layers path).bind (·.attribute? key) := by
  have hoverlay : (overlayAll (gather others path)).attributes.get? key =
      (overlayAll (gather layers path)).attributes.get? key := by
    have hget := congrArg (fun spec => spec.attributes.get? key)
      (overlay_all_same_without h : _ = (overlayAll (gather layers path)).without name)
    simpa [PrimSpec.without, SortedMap.get?_erase, hkey] using hget
  -- A prim that does not compose has no opinions, whose overlay has no attributes.
  have hcompose : ∀ layers : List Layer, (compose layers path).bind (·.attribute? key) =
      if path.isRoot || path.hasChoices then none
      else ((overlayAll (gather layers path)).attributes.get? key).map (.ofSpec path key) := by
    intro layers
    cases hprim : compose layers path with
    | none =>
        split
        next => rfl
        next hpath =>
          simp only [Bool.or_eq_true, not_or, Bool.not_eq_true] at hpath
          rw [gather_eq_nil_of_compose hpath.1 hpath.2 hprim]
          rfl
    | some prim =>
        obtain ⟨hroot, hplain, -⟩ := compose_is_some_iff.mp (Option.isSome_of_eq_some hprim)
        rw [Option.bind_some, attribute_of_compose hprim]
        simp [hroot, hplain]
  rw [hcompose, hcompose, hoverlay]

/-- A composed prim still composes, and is the same in all but its attributes and children. -/
theorem compose_same_without {prim : ComposedPrim} (hprim : compose layers path = some prim) :
    ∃ now, compose others path = some now ∧
      { now with attributes := prim.attributes, children := prim.children } = prim := by
  obtain ⟨hroot, hplain, hgather⟩ := compose_is_some_iff.mp (Option.isSome_of_eq_some hprim)
  have hlength := (SameWithout.of_layers h path).length_le
  have hothers : gather others path ≠ [] := by
    have hpos := List.length_pos_iff.mpr hgather
    exact List.length_pos_iff.mp (by omega)
  obtain ⟨now, hnow⟩ := Option.isSome_iff_exists.mp
    (compose_is_some_iff.mpr ⟨hroot, hplain, hothers⟩)
  refine ⟨now, hnow, ?_⟩
  obtain rfl := compose_eq_some hprim
  obtain rfl := compose_eq_some hnow
  -- Without its attributes a composed prim depends on the overlay without any of them.
  have hfields : ∀ (spec : PrimSpec) (attributes : SortedMap String ComposedAttribute)
      (children names : List String),
      { ComposedPrim.ofSpec path spec children with attributes, children := names } =
        { ComposedPrim.ofSpec path (spec.without name) children with
          attributes, children := names } := fun _ _ _ _ => rfl
  rw [hfields, overlay_all_same_without h]
  rfl

end Compose

/-! ## Operations on attributes -/

/-- A write of an operation on an attribute leaves all layers the same but for it. -/
theorem Operation.Writes.same_without {operation : Operation} {path : PropertyPath}
    (hattribute : operation.attribute? = some path) {stage later : Stage}
    (h : operation.Writes stage later) :
    List.Forall₂ (Layer.SameWithout path.name) stage.layers later.layers := by
  have hmodify : ∀ write : Layer → Layer,
      (∀ layer, Layer.SameWithout path.name layer (write layer)) →
        List.Forall₂ (Layer.SameWithout path.name) stage.layers
          (stage.layers.modify stage.target.layer write) := by
    intro write hwrite
    refine List.forall₂_iff_get.mpr ⟨by simp, fun index _ _ => ?_⟩
    simp only [List.get_eq_getElem, List.getElem_modify]
    split
    next => exact hwrite _
    next => exact .refl _
  cases h with
  | made hmakes hlayer =>
      cases hmakes with
      | createAttribute | setDefault | setConnections | addConnection =>
          obtain rfl := Option.some.inj hattribute
          refine hmodify _ fun layer => Layer.same_without_change_spec layer _ fun spec => ?_
          exact spec.without_change_attribute _ _
      | _ => cases hattribute
  | amended hamends =>
      cases hamends with
      | clearDefault | clearConnections =>
          obtain rfl := Option.some.inj hattribute
          refine hmodify _ fun layer => Layer.same_without_change_own_spec layer _ fun spec => ?_
          exact spec.without_change_own_attribute _
      | _ => cases hattribute

namespace Stage

/-- Edits of an attribute are local to it. On every stage, whatever its arcs, its layers and its
target are, an operation on an attribute, whether or not it fails, leaves every attribute of another
name on every prim of the scene as it is, and absent if it is. Every prim that composes does so
afterwards, with the same type, metadata, references, specialized prims, variant sets and
selections, and is defined if it was. -/
theorem attribute_edits_local (stage : Stage) {operation : Operation} {path : PropertyPath}
    (hattribute : operation.attribute? = some path) :
    let later := stage.after operation.run
    (∀ prim name, name ≠ path.name →
      later.attribute? ⟨prim, name⟩ = stage.attribute? ⟨prim, name⟩) ∧
    ∀ site prim, stage.prim? site = some prim →
      ∃ now, later.prim? site = some now ∧ now.typeName = prim.typeName ∧
        now.defined = prim.defined ∧ now.metadata = prim.metadata ∧
        now.references = prim.references ∧ now.specializes = prim.specializes ∧
        now.variantSets = prim.variantSets := by
  intro later
  have hlayers : List.Forall₂ (Layer.SameWithout path.name) stage.layers later.layers := by
    refine Operation.after_of_writes
      (fun later => List.Forall₂ (Layer.SameWithout path.name) stage.layers later.layers) ?_ ?_
    · exact List.forall₂_same.mpr fun layer _ => .refl layer
    · intro between later hbetween hwrite
      exact forall₂_trans (fun _ _ _ => .trans) hbetween (hwrite.same_without hattribute)
  refine ⟨fun prim name hname => compose_attribute_same_without hlayers hname, ?_⟩
  intro site prim hprim
  obtain ⟨now, hnow, hsame⟩ := compose_same_without hlayers hprim
  refine ⟨now, hnow, ?_⟩
  rw [← hsame]
  exact ⟨rfl, rfl, rfl, rfl, rfl, rfl⟩

/-- A material with a selected look, a prim that refers to it, and the target in the look in a layer
below. -/
def lookBelow : Stage where
  layers := [
    ⟨"root", .ofList [
      (⟨[.plain "M"]⟩, { PrimSpec.blank .define with
        typeName := some "Material"
        attributes := .ofList [("depth", .declare .int false)]
        variantSets := [⟨"look", ["x"]⟩]
        variantSelection := .ofList [("look", "x")] }),
      (⟨[.plain "N"]⟩, { PrimSpec.blank .define with references := [⟨[.plain "M"]⟩] })]⟩,
    .blank "details"]
  target := (EditTarget.ofLayer 1).redirect ⟨[.plain "M"]⟩ ⟨"look", "x"⟩

/-- An attribute that is created there makes a spec, which is an opinion on both prims; the prim
that refers to the material has the new attribute, and all else it has is as it was. -/
theorem tint_below_local :
    let create : Operation := .createAttribute ⟨⟨[.plain "M"]⟩, "tint"⟩ .int true
    let later := lookBelow.after create.run
    create.attribute? = some ⟨⟨[.plain "M"]⟩, "tint"⟩ ∧
      lookBelow.spec? 1 ⟨[⟨"M", [⟨"look", "x"⟩]⟩]⟩ = none ∧
      (later.spec? 1 ⟨[⟨"M", [⟨"look", "x"⟩]⟩]⟩).isSome = true ∧
      (later.attribute? ⟨⟨[.plain "N"]⟩, "tint"⟩).isSome = true ∧
      later.attribute? ⟨⟨[.plain "N"]⟩, "depth"⟩ =
        lookBelow.attribute? ⟨⟨[.plain "N"]⟩, "depth"⟩ ∧
      ∃ prim now, lookBelow.prim? ⟨[.plain "N"]⟩ = some prim ∧
        later.prim? ⟨[.plain "N"]⟩ = some now ∧ now.typeName = prim.typeName ∧
        now.variantSets = prim.variantSets := by
  intro create later
  obtain ⟨hothers, hprims⟩ := attribute_edits_local lookBelow (rfl : create.attribute? = some _)
  obtain ⟨prim, hprim⟩ : ∃ prim, lookBelow.prim? ⟨[.plain "N"]⟩ = some prim :=
    Option.isSome_iff_exists.mp (by decide)
  obtain ⟨now, hnow, htype, -, -, -, -, hsets⟩ := hprims _ prim hprim
  refine ⟨rfl, by decide, by decide, by decide, ?_, prim, now, hprim, hnow, htype, hsets⟩
  exact hothers ⟨[.plain "N"]⟩ "depth" (by decide)

end Stage

end LayeredShading
