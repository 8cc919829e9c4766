import LayeredShading.Path.Basic

/-!
# The prims on the way to a prim

Facts about `PrimPath.ancestry`: its members (`mem_ancestry`), the prims on the way to one of them
(`ancestry_truncate`), and that it lists the prims by their depths.
-/

namespace LayeredShading

namespace PrimPath

/-- Truncating gives a path of the depth asked for, or the path if it is not as deep. -/
@[simp]
theorem depth_truncate (path : PrimPath) (depth : Nat) :
    (path.truncate depth).depth = min depth path.depth := by
  simp [truncate, PrimPath.depth]

/-- The prims on the way are the proper truncations and the path itself. -/
theorem mem_ancestry {above path : PrimPath} :
    above ∈ path.ancestry ↔ ∃ index < path.depth, path.truncate (index + 1) = above := by
  simp [ancestry]

/-- The prims on the way to a prim on the way are the first ones on the way. -/
theorem ancestry_truncate {path : PrimPath} {depth : Nat} (le : depth ≤ path.depth) :
    (path.truncate depth).ancestry = path.ancestry.take depth := by
  apply List.ext_getElem
  · simp [ancestry]
  · intro index inner outer
    have lt : index < depth := by simp_all [ancestry]
    simp [ancestry, truncate, List.take_take, Nat.min_eq_left (Nat.succ_le_of_lt lt)]

/-- The prims on the way that follow the first ones are deeper than their number. -/
theorem lt_depth_of_mem_drop_ancestry {path above : PrimPath} {depth : Nat}
    (mem : above ∈ path.ancestry.drop depth) : depth < above.depth := by
  obtain ⟨index, at_index⟩ := List.mem_iff_getElem?.mp mem
  simp only [ancestry, List.getElem?_drop, List.getElem?_map, Option.map_eq_some_iff] at at_index
  obtain ⟨position, found, rfl⟩ := at_index
  obtain ⟨lt, rfl⟩ := List.getElem?_eq_some_iff.mp found
  simp only [List.length_range] at lt
  simp only [List.getElem_range, depth_truncate]
  omega

end PrimPath

end LayeredShading
