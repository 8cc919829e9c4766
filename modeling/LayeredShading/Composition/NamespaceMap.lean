import LayeredShading.Path.Property

/-!
# Namespace maps

Opinions that reach a prim through an arc name prims at the source of the arc. A namespace map
moves such names to the prim that the opinions reach: each pair moves a path from below its first
prim to below its second, and the pair of the last arc comes first.
-/

namespace LayeredShading

/-- Pairs of a source prim and the prim that it stands in for. -/
structure NamespaceMap where
  pairs : List (PrimPath × PrimPath)
  deriving DecidableEq, Repr, Inhabited

namespace NamespaceMap

/-- The map that leaves every path where it is. -/
def identity : NamespaceMap := ⟨[]⟩

/-- The map that moves paths from below a source to below a target, and then as before. -/
def nest (map : NamespaceMap) (source target : PrimPath) : NamespaceMap :=
  ⟨(source, target) :: map.pairs⟩

/-- Where a prim is moved to. Pairs whose source does not lie above the prim leave it alone. -/
def applyPrim (map : NamespaceMap) (prim : PrimPath) : PrimPath :=
  map.pairs.foldl (fun moved pair => (moved.relocate? pair.1 pair.2).getD moved) prim

/-- Where a property is moved to. -/
def apply (map : NamespaceMap) (path : PropertyPath) : PropertyPath :=
  path.withPrim (map.applyPrim path.prim)

end NamespaceMap

end LayeredShading
