import LayeredShading.DistinctList
import LayeredShading.Metadata
import LayeredShading.Path.Property
import LayeredShading.SortedMap
import LayeredShading.Value

/-!
# Specs

A spec is what one layer says about one prim. Each part of it may be left open: a type or a default
that is not authored says nothing, while an authored list of connections or of specialized prims
counts even when it is empty.
-/

namespace LayeredShading

/-- Whether a spec defines its prim or only adds opinions to a prim that is defined elsewhere. -/
inductive Specifier where
  | define
  | override
  deriving DecidableEq, Repr, Inhabited

namespace Specifier

/-- The word for a specifier in scene files. -/
def name : Specifier → String
  | define => "def"
  | override => "over"

/-- A prim is defined if either spec defines it. -/
def join : Specifier → Specifier → Specifier
  | override, override => override
  | _, _ => define

end Specifier

/-- What a spec says about an attribute. -/
structure AttributeSpec where
  type : ValueType
  default : Option Value
  connections : Option (List PropertyPath)
  custom : Bool
  deriving DecidableEq

namespace AttributeSpec

/-- A declaration without a value and connections. -/
def declare (type : ValueType) (custom : Bool) : AttributeSpec := ⟨type, none, none, custom⟩

end AttributeSpec

/-- A variant set and its variants, both in the order of their declaration. -/
structure VariantSetSpec where
  name : String
  variants : List String
  deriving DecidableEq, Repr, Inhabited

/-- What a layer says about a prim. -/
structure PrimSpec where
  specifier : Specifier
  typeName : Option String
  metadata : Metadata
  attributes : SortedMap String AttributeSpec
  references : List PrimPath
  specializes : Option (List PrimPath)
  variantSets : List VariantSetSpec
  variantSelection : SortedMap String String
  deriving DecidableEq

/-- Change the first variant set of a name, which is declared at the end if there is none. -/
def changeVariantSet (name : String) (change : List String → List String) :
    List VariantSetSpec → List VariantSetSpec
  | [] => [⟨name, change []⟩]
  | set :: rest =>
    if set.name = name then { set with variants := change set.variants } :: rest
    else set :: changeVariantSet name change rest

namespace PrimSpec

/-- A spec that says nothing but its specifier. -/
def blank (specifier : Specifier) : PrimSpec :=
  ⟨specifier, none, .empty, .empty, [], none, [], .empty⟩

instance : Inhabited PrimSpec := ⟨blank .define⟩

/-- Whether the spec declares the variant of a choice. -/
def declares (spec : PrimSpec) (choice : VariantChoice) : Bool :=
  spec.variantSets.any fun set => set.name == choice.set && set.variants.contains choice.variant

/-- Declare a variant set. -/
def addVariantSet (spec : PrimSpec) (set : String) : PrimSpec :=
  { spec with variantSets := changeVariantSet set id spec.variantSets }

/-- Declare variants, and their set if it is not declared yet. -/
def addVariants (spec : PrimSpec) (set : String) (variants : List String) : PrimSpec :=
  { spec with variantSets := changeVariantSet set (addAllNew · variants) spec.variantSets }

/-- Change an attribute, which starts as `declared` if the spec says nothing about it. -/
def changeAttribute (spec : PrimSpec) (name : String) (declared : AttributeSpec)
    (change : AttributeSpec → AttributeSpec) : PrimSpec :=
  { spec with attributes := spec.attributes.update name declared change }

/-- Change an attribute that the spec says something about. -/
def changeOwnAttribute (spec : PrimSpec) (name : String)
    (change : AttributeSpec → AttributeSpec) : PrimSpec :=
  { spec with attributes := spec.attributes.modify name change }

end PrimSpec

end LayeredShading
