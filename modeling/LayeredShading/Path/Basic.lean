import LayeredShading.Error
import LayeredShading.Path.Name

/-!
# Prim paths

A prim path leads from the root of the scene to a prim, one segment per prim. A segment may carry
choices of variants, and then the path addresses the private sub-tree that the variant keeps for
that prim and the prims below it. Paths are ordered segment by segment, first by name and then by
choices, so a path comes before every path below it. `relocate?` moves a path from below one prim
to below another, which is how opinions that are reached through an arc find their place.
-/

namespace LayeredShading

/-- A variant chosen in a variant set. -/
structure VariantChoice where
  set : String
  variant : String
  deriving DecidableEq, Repr, Inhabited

namespace VariantChoice

/-- Choices are ordered by set, then by variant. -/
instance : Ord VariantChoice :=
  ⟨compareLex (compareOn VariantChoice.set) (compareOn VariantChoice.variant)⟩

theorem compare_eq : (compare : VariantChoice → VariantChoice → Ordering) =
    compareLex (compareOn VariantChoice.set) (compareOn VariantChoice.variant) := rfl

instance : Std.TransOrd VariantChoice := by
  unfold Std.TransOrd; rw [compare_eq]; infer_instance

instance : Std.LawfulEqOrd VariantChoice where
  eq_of_compare {first second} same := by
    obtain ⟨sets, variants⟩ := compareLex_eq_eq.mp (compare_eq ▸ same)
    cases first; cases second
    simp_all [compareOn]

/-- The choice as it stands in a path. -/
def text (choice : VariantChoice) : String :=
  "\x7b" ++ choice.set ++ "=" ++ choice.variant ++ "\x7d"

end VariantChoice

/-- One prim on the way from the root, with the variants chosen there. -/
structure Segment where
  name : String
  choices : List VariantChoice
  deriving DecidableEq, Repr, Inhabited

namespace Segment

/-- Segments are ordered by name, then by choices. -/
instance : Ord Segment :=
  ⟨compareLex (compareOn Segment.name) (compareOn Segment.choices)⟩

theorem compare_eq : (compare : Segment → Segment → Ordering) =
    compareLex (compareOn Segment.name) (compareOn Segment.choices) := rfl

instance : Std.TransOrd Segment := by
  unfold Std.TransOrd; rw [compare_eq]; infer_instance

instance : Std.LawfulEqOrd Segment where
  eq_of_compare {first second} same := by
    obtain ⟨names, choices⟩ := compareLex_eq_eq.mp (compare_eq ▸ same)
    cases first; cases second
    simp_all [compareOn]

/-- The segment of a prim without choices. -/
def plain (name : String) : Segment := ⟨name, []⟩

/-- The segment as it stands in a path. -/
def text (segment : Segment) : String :=
  segment.name ++ String.join (segment.choices.map VariantChoice.text)

end Segment

/-- A path from the root to a prim. -/
structure PrimPath where
  segments : List Segment
  deriving DecidableEq, Repr, Inhabited

namespace PrimPath

/-- Paths are ordered segment by segment. -/
instance : Ord PrimPath := ⟨compareOn PrimPath.segments⟩

theorem compare_eq : (compare : PrimPath → PrimPath → Ordering) =
    compareOn PrimPath.segments := rfl

instance : Std.TransOrd PrimPath := by
  unfold Std.TransOrd; rw [compare_eq]; infer_instance

instance : Std.LawfulEqOrd PrimPath where
  eq_of_compare {first second} same := by
    rw [compare_eq] at same
    cases first; cases second
    simp_all [compareOn]

/-- The path of the root, which is no prim. -/
def root : PrimPath := ⟨[]⟩

/-- Whether the path is that of the root. -/
def isRoot (path : PrimPath) : Bool := path.segments.isEmpty

/-- The number of prims on the path. -/
def depth (path : PrimPath) : Nat := path.segments.length

/-- The name of the prim, or `none` for the root. -/
def name? (path : PrimPath) : Option String := path.segments.getLast?.map (·.name)

/-- The path one prim shorter, or `none` for the root. Choices on the prims that remain are
kept. -/
def parent? (path : PrimPath) : Option PrimPath :=
  if path.isRoot then none else some ⟨path.segments.dropLast⟩

/-- The path of a prim below, whatever its name. -/
def push (path : PrimPath) (name : String) : PrimPath :=
  ⟨path.segments ++ [.plain name]⟩

/-- The path continued by further segments. -/
def append (path : PrimPath) (rest : List Segment) : PrimPath :=
  ⟨path.segments ++ rest⟩

/-- Whether the path is `base` or leads below it. The choices on the common segments have to agree
as well. -/
def isUnder (path base : PrimPath) : Bool :=
  base.segments.isPrefixOf path.segments

/-- Whether one of the paths is the other or leads below it. -/
def overlaps (first second : PrimPath) : Bool :=
  first.isUnder second || second.isUnder first

/-- Whether any segment carries a choice. -/
def hasChoices (path : PrimPath) : Bool :=
  path.segments.any fun segment => !segment.choices.isEmpty

/-- Whether the last segment carries a choice, so that the path addresses a variant of a prim and
not the prim. -/
def endsInChoice (path : PrimPath) : Bool :=
  path.segments.getLast?.any fun segment => !segment.choices.isEmpty

/-- The path of the same prim without choices. -/
def stripChoices (path : PrimPath) : PrimPath :=
  ⟨path.segments.map fun segment => .plain segment.name⟩

/-- The path of the prim at a depth on the way, or the path itself if it is not deeper. -/
def truncate (path : PrimPath) (depth : Nat) : PrimPath :=
  ⟨path.segments.take depth⟩

/-- The path with a further choice at the prim of a depth; prims count from one, and at any other
depth nothing is added. -/
def choose (path : PrimPath) (depth : Nat) (choice : VariantChoice) : PrimPath :=
  match depth with
  | 0 => path
  | index + 1 =>
    ⟨path.segments.modify index fun segment =>
      { segment with choices := segment.choices ++ [choice] }⟩

/-- The path moved from below `source` to the same place below `target`, or `none` if it is not
below `source`. -/
def relocate? (path source target : PrimPath) : Option PrimPath :=
  if path.isUnder source then some (target.append (path.segments.drop source.depth)) else none

/-- The paths of the prims on the way, from the top-level one to the path itself. -/
def ancestry (path : PrimPath) : List PrimPath :=
  (List.range path.depth).map fun index => path.truncate (index + 1)

/-- The text of further segments. A slash stands before each segment that does not follow a
choice. -/
def textOfSegments (afterChoice : Bool) : List Segment → String
  | [] => ""
  | segment :: rest =>
    (if afterChoice then "" else "/") ++ segment.text ++
      textOfSegments (!segment.choices.isEmpty) rest

/-- The text of a path. -/
def text (path : PrimPath) : String :=
  if path.isRoot then "/" else textOfSegments false path.segments

/-- The path of the child of a given name. -/
def child (path : PrimPath) (name : String) : Except Error PrimPath :=
  if isPrimName name then .ok (path.push name)
  else .error (.invalidPath (path.text ++ "/" ++ name))

/-- Refuse the root and paths with choices: neither is a prim of the composed scene. -/
def requireScenePath (path : PrimPath) : Except Error Unit :=
  if path.isRoot || path.hasChoices then .error (.invalidPath path.text) else .ok ()

end PrimPath

end LayeredShading
