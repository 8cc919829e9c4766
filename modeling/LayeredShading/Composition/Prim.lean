import LayeredShading.Composition.Opinion

/-!
# Composed prims

A composed prim is the overlay of its opinions, the strongest on top. Whatever a stronger opinion
leaves open the weaker ones fill in: the type, the metadata keys, the attributes and in each its
default and its connections, the list of specialized prims and the selections. References, variant
sets and variants add up, in the order in which the opinions give them.
-/

namespace LayeredShading

/-- An attribute of a composed prim. The connections are in authoring order and name prims of the
composed scene. -/
structure ComposedAttribute where
  path : PropertyPath
  type : ValueType
  default : Option Value
  connections : List PropertyPath
  custom : Bool
  deriving DecidableEq

namespace ComposedAttribute

/-- The name of the attribute. -/
def name (composed : ComposedAttribute) : String := composed.path.name

/-- Whether any opinion authors a default. -/
def hasDefault (composed : ComposedAttribute) : Bool := composed.default.isSome

/-- Whether there is a connection. -/
def isConnected (composed : ComposedAttribute) : Bool := !composed.connections.isEmpty

/-- The connection that was authored last. -/
def lastConnection? (composed : ComposedAttribute) : Option PropertyPath :=
  composed.connections.getLast?

end ComposedAttribute

/-- A variant set of a composed prim. -/
structure ComposedVariantSet where
  name : String
  variants : List String
  selection : Option String
  deriving DecidableEq, Repr

namespace ComposedVariantSet

/-- Whether the set declares a variant. -/
def hasVariant (set : ComposedVariantSet) (variant : String) : Bool :=
  set.variants.contains variant

end ComposedVariantSet

/-- A prim as all its opinions together make it. -/
structure ComposedPrim where
  path : PrimPath
  defined : Bool
  typeName : Option String
  metadata : Metadata
  attributes : SortedMap String ComposedAttribute
  references : List PrimPath
  specializes : List PrimPath
  variantSets : List ComposedVariantSet
  children : List String
  deriving DecidableEq

namespace ComposedPrim

/-- The name of the prim. -/
def name (prim : ComposedPrim) : String := prim.path.name?.getD ""

/-- Whether the prim has a type. -/
def isA (prim : ComposedPrim) (typeName : String) : Bool := prim.typeName == some typeName

/-- The attribute of a name. -/
def attribute? (prim : ComposedPrim) (name : String) : Option ComposedAttribute :=
  prim.attributes.get? name

/-- The variant set of a name. -/
def variantSet? (prim : ComposedPrim) (name : String) : Option ComposedVariantSet :=
  prim.variantSets.find? fun set => set.name == name

/-- The attributes whose names start with a lead, by name: a scan of the names from the lead on, up
to the first one that does not start with it. -/
def attributesUnder (prim : ComposedPrim) (lead : String) : List ComposedAttribute :=
  ((prim.attributes.entriesFrom lead).takeWhile fun entry => Text.startsWith lead entry.1).map
    (·.2)

end ComposedPrim

namespace AttributeSpec

/-- The overlay of a strong opinion on a weak one. -/
def overlay (strong weak : AttributeSpec) : AttributeSpec where
  type := strong.type
  default := strong.default <|> weak.default
  connections := strong.connections <|> weak.connections
  custom := strong.custom

end AttributeSpec

/-- The variant sets of a strong opinion with those of a weak one added. -/
def overlayVariantSets (strong weak : List VariantSetSpec) : List VariantSetSpec :=
  weak.foldl (fun sets set => changeVariantSet set.name (addAllNew · set.variants) sets) strong

namespace PrimSpec

/-- The overlay of a strong opinion on a weak one. -/
def overlay (strong weak : PrimSpec) : PrimSpec where
  specifier := strong.specifier.join weak.specifier
  typeName := strong.typeName <|> weak.typeName
  metadata := strong.metadata.fillFrom weak.metadata
  attributes := strong.attributes.merge AttributeSpec.overlay weak.attributes
  references := addAllNew strong.references weak.references
  specializes := strong.specializes <|> weak.specializes
  variantSets := overlayVariantSets strong.variantSets weak.variantSets
  variantSelection := strong.variantSelection.merge (fun selected _ => selected)
    weak.variantSelection

end PrimSpec

namespace Opinion

/-- What an opinion says in the names of the composed scene. Attributes whose name is no property
name are left out. -/
def localized (opinion : Opinion) : PrimSpec :=
  { opinion.spec with
    attributes := (opinion.spec.attributes.filterKeys isPropertyName).mapValues fun _ spec =>
      { spec with connections := spec.connections.map (·.map opinion.map.apply) } }

/-- The names of the prims that an opinion puts below its own. -/
def childNames (opinion : Opinion) : List String :=
  opinion.layer.childNames opinion.site

/-- The overlay of all opinions. -/
def overlayAll (opinions : List Opinion) : PrimSpec :=
  opinions.foldl (fun overlaid opinion => overlaid.overlay opinion.localized) (.blank .override)

end Opinion

namespace ComposedAttribute

/-- The attribute of a prim that an overlay of opinions describes. -/
def ofSpec (prim : PrimPath) (name : String) (spec : AttributeSpec) : ComposedAttribute where
  path := ⟨prim, name⟩
  type := spec.type
  default := spec.default
  connections := spec.connections.getD []
  custom := spec.custom

end ComposedAttribute

namespace ComposedPrim

/-- The prim that an overlay of opinions describes. A selection counts only if its variant is
declared. -/
def ofSpec (path : PrimPath) (spec : PrimSpec) (children : List String) : ComposedPrim where
  path := path
  defined := spec.specifier = .define
  typeName := spec.typeName
  metadata := spec.metadata
  attributes := spec.attributes.mapValues (ComposedAttribute.ofSpec path)
  references := spec.references
  specializes := spec.specializes.getD []
  variantSets := spec.variantSets.map fun set =>
    ⟨set.name, set.variants,
      (spec.variantSelection.get? set.name).filter fun variant => set.variants.contains variant⟩
  children := children

end ComposedPrim

/-- The composed prim at a path: `none` for the root, for a path with choices and for a prim on
which there is no opinion. -/
def compose (layers : List Layer) (path : PrimPath) : Option ComposedPrim :=
  if path.isRoot || path.hasChoices then none
  else match Opinion.gather layers path with
    | [] => none
    | opinions =>
      some (.ofSpec path (Opinion.overlayAll opinions)
        (addAllNew [] (opinions.flatMap Opinion.childNames)))

/-- The names of the prims directly below the root. -/
def rootChildren (layers : List Layer) : List String :=
  addAllNew [] (layers.flatMap fun layer => layer.childNames .root)

end LayeredShading
