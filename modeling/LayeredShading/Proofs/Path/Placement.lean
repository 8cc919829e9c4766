import LayeredShading.Path.Ancestry
import Mathlib.Data.List.Nodup

/-!
# Placement of paths

How the operations on paths act on a path that is taken apart into a base and the segments below
it. `is_under_iff` and `relocate_eq_some_iff` turn tests and moves into such equations, and
`overlaps_of_append_eq` says that two bases of one path always overlap. `descend` reaches a prim
below by names alone, which is how every composed prim is reached from its top-level prim.
-/

namespace LayeredShading

/-- Segments without choices are told by their names. -/
theorem Segment.map_plain_name {segments : List Segment}
    (h : ∀ segment ∈ segments, segment.choices = []) :
    (segments.map fun segment => Segment.plain segment.name) = segments := by
  induction segments with
  | nil => rfl
  | cons head rest ih =>
      have hhead : Segment.plain head.name = head := by
        have hnone := h head List.mem_cons_self
        cases head
        simp_all [plain]
      rw [List.map_cons, hhead, ih fun segment hmem => h segment (List.mem_cons_of_mem _ hmem)]

namespace PrimPath

@[simp]
theorem append_nil (path : PrimPath) : path.append [] = path := by simp [append]

@[simp]
theorem append_append (path : PrimPath) (first second : List Segment) :
    (path.append first).append second = path.append (first ++ second) := by simp [append]

@[simp]
theorem depth_append (path : PrimPath) (rest : List Segment) :
    (path.append rest).depth = path.depth + rest.length := by simp [append, depth]

@[simp]
theorem depth_push (path : PrimPath) (name : String) :
    (path.push name).depth = path.depth + 1 := by simp [push, depth]

/-- A prim below is reached by one plain segment. -/
theorem push_eq_append (path : PrimPath) (name : String) :
    path.push name = path.append [.plain name] := rfl

/-- Pushing a name below a continued path continues it further. -/
theorem push_append (path : PrimPath) (rest : List Segment) (name : String) :
    (path.append rest).push name = path.append (rest ++ [.plain name]) := by
  simp [push_eq_append]

/-- Two prims pushed below different paths, or by different names, differ. -/
theorem push_inj {first second : PrimPath} {name other : String} :
    first.push name = second.push other ↔ first = second ∧ name = other := by
  constructor
  · intro h
    have hsegments := congrArg PrimPath.segments h
    simp only [push, List.append_singleton_inj, Segment.plain, Segment.mk.injEq,
      and_true] at hsegments
    obtain ⟨hbase, hname⟩ := hsegments
    cases first
    cases second
    exact ⟨congrArg PrimPath.mk hbase, hname⟩
  · rintro ⟨rfl, rfl⟩
    rfl

/-- A path of positive depth is no root. -/
theorem is_root_eq_false_iff {path : PrimPath} : path.isRoot = false ↔ 0 < path.depth := by
  simp [isRoot, depth, List.length_pos_iff]

/-- Only the root has no depth. -/
theorem eq_root {path : PrimPath} (h : path.depth = 0) : path = .root := by
  obtain ⟨segments⟩ := path
  exact congrArg mk (List.length_eq_zero_iff.mp h)

theorem depth_eq_zero_iff {path : PrimPath} : path.depth = 0 ↔ path.isRoot = true := by
  rw [depth, List.length_eq_zero_iff, isRoot, List.isEmpty_iff]

/-! ## Bases of a path -/

/-- A path is under a base exactly if segments continue the base to it. -/
theorem is_under_iff {path base : PrimPath} :
    path.isUnder base = true ↔ ∃ rest, path = base.append rest := by
  obtain ⟨segments⟩ := path
  obtain ⟨above⟩ := base
  simp only [isUnder, append, List.isPrefixOf_iff_prefix, mk.injEq]
  constructor
  · rintro ⟨rest, h⟩
    exact ⟨rest, h.symm⟩
  · rintro ⟨rest, h⟩
    exact ⟨rest, h.symm⟩

@[simp]
theorem is_under_append (base : PrimPath) (rest : List Segment) :
    (base.append rest).isUnder base = true :=
  is_under_iff.mpr ⟨rest, rfl⟩

@[simp]
theorem is_under_refl (path : PrimPath) : path.isUnder path = true :=
  is_under_iff.mpr ⟨[], by simp⟩

/-- What lies above a child lies above the prim or is the child. -/
theorem is_under_push_iff {path base : PrimPath} {name : String} :
    (path.push name).isUnder base = true ↔ path.isUnder base = true ∨ base = path.push name := by
  obtain ⟨segments⟩ := path
  obtain ⟨above⟩ := base
  simp only [isUnder, push, List.isPrefixOf_iff_prefix, List.prefix_concat_iff, mk.injEq]
  exact or_comm

/-- Paths overlap exactly if segments continue one to the other. -/
theorem overlaps_iff {first second : PrimPath} :
    first.overlaps second = true ↔
      (∃ rest, first = second.append rest) ∨ ∃ rest, second = first.append rest := by
  simp [overlaps, is_under_iff]

/-- Overlapping is symmetric. -/
theorem overlaps_comm (first second : PrimPath) :
    first.overlaps second = second.overlaps first := by
  simp [overlaps, Bool.or_comm]

/-- Two bases of one path overlap: the shorter one lies above the longer one. -/
theorem overlaps_of_append_eq {first second : PrimPath} {rest others : List Segment}
    (h : first.append rest = second.append others) : first.overlaps second = true := by
  have hsegments : first.segments ++ rest = second.segments ++ others :=
    congrArg PrimPath.segments h
  -- Of two prefixes of one list the shorter is a prefix of the longer.
  have hfirst : first.segments <+: second.segments ++ others := ⟨rest, hsegments⟩
  rcases List.prefix_or_prefix_of_prefix hfirst (List.prefix_append _ _) with hle | hle
  · simp [overlaps, isUnder, hle]
  · simp [overlaps, isUnder, hle]

/-- What does not overlap the base of a path is not that path. -/
theorem append_ne_append {first second : PrimPath} (h : first.overlaps second = false)
    (rest others : List Segment) : first.append rest ≠ second.append others := by
  intro heq
  simp [overlaps_of_append_eq heq] at h

/-- The root lies above every path. -/
theorem depth_pos_of_apart {first second : PrimPath} (h : first.overlaps second = false) :
    0 < first.depth := by
  by_contra hroot
  have hempty : first.segments = [] := List.length_eq_zero_iff.mp (Nat.eq_zero_of_not_pos hroot)
  simp [overlaps, isUnder, hempty] at h

/-- A move takes the segments below the source along. -/
theorem relocate_eq_some_iff {path source target moved : PrimPath} :
    path.relocate? source target = some moved ↔
      ∃ rest, path = source.append rest ∧ moved = target.append rest := by
  unfold relocate?
  split
  next hunder =>
    obtain ⟨rest, rfl⟩ := is_under_iff.mp hunder
    have hdrop : (source.append rest).segments.drop source.depth = rest := by
      simp [append, depth]
    rw [hdrop]
    constructor
    · intro h
      exact ⟨rest, rfl, (Option.some.inj h).symm⟩
    · rintro ⟨others, hrest, rfl⟩
      have hothers : rest = others := by simpa [append] using hrest
      rw [hothers]
  next hunder =>
    constructor
    · intro h
      cases h
    · rintro ⟨rest, rfl, -⟩
      simp at hunder

@[simp]
theorem relocate_append (source target : PrimPath) (rest : List Segment) :
    (source.append rest).relocate? source target = some (target.append rest) :=
  relocate_eq_some_iff.mpr ⟨rest, rfl, rfl⟩

/-- A path that is not below the source is not moved. -/
theorem relocate_eq_none_iff {path source target : PrimPath} :
    path.relocate? source target = none ↔ path.isUnder source = false := by
  simp [relocate?]

/-- The path moved from below `source` to below `target`, or the path itself if it is not below
`source`. -/
def moved (path source target : PrimPath) : PrimPath :=
  (path.relocate? source target).getD path

@[simp]
theorem moved_append (source target : PrimPath) (rest : List Segment) :
    (source.append rest).moved source target = target.append rest := by
  simp [moved]

/-- A path that is not below the source stays where it is. -/
theorem moved_eq_self {path source target : PrimPath} (h : path.isUnder source = false) :
    path.moved source target = path := by
  simp [moved, relocate_eq_none_iff.mpr h]

/-! ## The prims on the way -/

/-- The prims on the way to a path are the bases of it other than the root. -/
theorem mem_ancestry_iff {above path : PrimPath} :
    above ∈ path.ancestry ↔ 0 < above.depth ∧ ∃ rest, path = above.append rest := by
  rw [mem_ancestry]
  constructor
  · rintro ⟨index, hlt, rfl⟩
    refine ⟨by simp only [depth_truncate]; omega, path.segments.drop (index + 1), ?_⟩
    cases path
    simp [truncate, append]
  · rintro ⟨hpos, rest, rfl⟩
    refine ⟨above.depth - 1, by simp only [depth_append]; omega, ?_⟩
    have hdepth : above.depth - 1 + 1 = above.segments.length := by
      simp only [depth] at hpos ⊢
      omega
    rw [hdepth]
    cases above
    simp [truncate, append]

/-- The prims on the way to a prim below a base lie below that base or above it. -/
theorem under_or_above_of_mem_ancestry {base above : PrimPath} {rest : List Segment}
    (h : above ∈ (base.append rest).ancestry) :
    above.isUnder base = true ∨ base.isUnder above = true := by
  obtain ⟨-, others, hothers⟩ := mem_ancestry_iff.mp h
  have hoverlaps : above.overlaps base = true := overlaps_of_append_eq hothers.symm
  simpa [overlaps] using hoverlaps

/-- The prims on the way to a base that lies below another one are on the way to the base. -/
theorem mem_ancestry_of_is_under {base above between : PrimPath}
    (hunder : base.isUnder between = true) (habove : above ∈ between.ancestry) :
    above ∈ base.ancestry := by
  obtain ⟨below, rfl⟩ := is_under_iff.mp hunder
  obtain ⟨hpos, rest, rfl⟩ := mem_ancestry_iff.mp habove
  exact mem_ancestry_iff.mpr ⟨hpos, rest ++ below, append_append _ _ _⟩

/-- Paths below each other are equal. -/
theorem eq_of_is_under {first second : PrimPath} (hfirst : first.isUnder second = true)
    (hsecond : second.isUnder first = true) : first = second := by
  obtain ⟨rest, rfl⟩ := is_under_iff.mp hfirst
  obtain ⟨others, hothers⟩ := is_under_iff.mp hsecond
  have hdepth := congrArg depth hothers
  rw [depth_append, depth_append] at hdepth
  have hnil : rest = [] := List.length_eq_zero_iff.mp (by omega)
  rw [hnil, append_nil]

/-- Each prim on the way is met once. -/
theorem ancestry_nodup (path : PrimPath) : path.ancestry.Nodup := by
  refine List.Nodup.map_on ?_ List.nodup_range
  intro first hfirst second hsecond hsame
  have hdepths := congrArg PrimPath.depth hsame
  simp only [depth_truncate, List.mem_range] at hfirst hsecond hdepths
  omega

/-- The prims on the way to a prim below are those on the way to its parent and the prim itself. -/
theorem ancestry_push (path : PrimPath) (name : String) :
    (path.push name).ancestry = path.ancestry ++ [path.push name] := by
  have htruncate : (path.push name).truncate path.depth = path := by
    cases path
    simp [truncate, push, depth]
  have hself : (path.push name).truncate (path.depth + 1) = path.push name := by
    cases path
    simp [truncate, push, depth, List.take_of_length_le]
  have htake : ((path.push name).truncate path.depth).ancestry =
      (path.push name).ancestry.take path.depth := ancestry_truncate (by simp)
  rw [htruncate] at htake
  have hlast : (path.push name).ancestry =
      (path.push name).ancestry.take path.depth ++ (path.push name).ancestry.drop path.depth :=
    (List.take_append_drop _ _).symm
  rw [hlast, ← htake]
  congr 1
  simp [ancestry, List.range_succ, hself]

/-- The name of the top-level prim on the way. -/
def topName (path : PrimPath) : String := ((path.segments.head?).map (·.name)).getD ""

/-- Segments below a prim do not change the top-level prim. -/
theorem top_name_append {path : PrimPath} (hpos : 0 < path.depth) (rest : List Segment) :
    (path.append rest).topName = path.topName := by
  obtain ⟨segments⟩ := path
  cases segments with
  | nil => simp [depth] at hpos
  | cons head tail => rfl

@[simp]
theorem top_name_strip (path : PrimPath) : path.stripChoices.topName = path.topName := by
  obtain ⟨segments⟩ := path
  cases segments <;> rfl

/-! ## Choices -/

/-- A choice at a prim of the base commutes with the segments below the base. -/
theorem choose_append {path : PrimPath} {depth : Nat} (h : depth ≤ path.depth)
    (rest : List Segment) (choice : VariantChoice) :
    (path.append rest).choose depth choice = (path.choose depth choice).append rest := by
  cases depth with
  | zero => rfl
  | succ index =>
      have hlt : index < path.segments.length := h
      simp only [choose, append, mk.injEq]
      apply List.ext_getElem?
      intro position
      simp only [List.getElem?_modify, List.getElem?_append, List.length_modify]
      split <;> grind

/-- A choice at the last prim is added to the choices there. -/
theorem choose_last (path : PrimPath) (last : Segment) (choice : VariantChoice) :
    (path.append [last]).choose (path.depth + 1) choice =
      path.append [{ last with choices := last.choices ++ [choice] }] := by
  simp [choose, append, depth, List.modify_eq_take_cons_drop]

@[simp]
theorem depth_choose (path : PrimPath) (depth : Nat) (choice : VariantChoice) :
    (path.choose depth choice).depth = path.depth := by
  cases depth <;> simp [choose, PrimPath.depth]

@[simp]
theorem strip_append (path : PrimPath) (rest : List Segment) :
    (path.append rest).stripChoices =
      path.stripChoices.append (rest.map fun segment => .plain segment.name) := by
  simp [stripChoices, append]

@[simp]
theorem depth_strip (path : PrimPath) : path.stripChoices.depth = path.depth := by
  simp [stripChoices, depth]

/-- Choices do not change which prim a path is about. -/
@[simp]
theorem strip_choose (path : PrimPath) (depth : Nat) (choice : VariantChoice) :
    (path.choose depth choice).stripChoices = path.stripChoices := by
  cases depth with
  | zero => rfl
  | succ index =>
      simp only [choose, stripChoices, mk.injEq]
      apply List.ext_getElem
      · simp
      · intro position _ _
        simp only [List.getElem_map, List.getElem_modify]
        split <;> rfl

/-- A choice at a prim on the way changes the path. -/
theorem choose_ne_self {path : PrimPath} {depth : Nat} (hpos : 0 < depth)
    (hle : depth ≤ path.depth) (choice : VariantChoice) : path.choose depth choice ≠ path := by
  obtain ⟨index, rfl⟩ := Nat.exists_eq_succ_of_ne_zero (Nat.ne_of_gt hpos)
  have hlt : index < path.segments.length := hle
  intro hsame
  have hsegment := congrArg (fun other : PrimPath => other.segments[index]?) hsame
  simp only [choose, List.getElem?_modify_eq, List.getElem?_eq_getElem hlt,
    Option.map_eq_map, Option.map_some, Option.some.injEq] at hsegment
  have hchoices := congrArg (fun segment : Segment => segment.choices.length) hsegment
  simp at hchoices

/-- Different choices at a prim on the way give different paths. -/
theorem choose_inj {path : PrimPath} {depth : Nat} (hpos : 0 < depth) (hle : depth ≤ path.depth)
    {first second : VariantChoice} :
    path.choose depth first = path.choose depth second ↔ first = second := by
  obtain ⟨index, rfl⟩ := Nat.exists_eq_succ_of_ne_zero (Nat.ne_of_gt hpos)
  have hlt : index < path.segments.length := hle
  constructor
  · intro hsame
    have hsegment := congrArg (fun other : PrimPath => other.segments[index]?) hsame
    simpa only [choose, List.getElem?_modify_eq, List.getElem?_eq_getElem hlt, Option.map_eq_map,
      Option.map_some, Option.some.injEq, Segment.mk.injEq, true_and,
      List.append_cancel_left_eq, List.cons.injEq, and_true] using hsegment
  · rintro rfl
    rfl

theorem has_choices_eq_false_iff {path : PrimPath} :
    path.hasChoices = false ↔ ∀ segment ∈ path.segments, segment.choices = [] := by
  simp [hasChoices]

/-- A path without choices is the path of its prim. -/
theorem strip_eq_self {path : PrimPath} (h : path.hasChoices = false) :
    path.stripChoices = path := by
  obtain ⟨segments⟩ := path
  exact congrArg mk (Segment.map_plain_name (has_choices_eq_false_iff.mp h))

@[simp]
theorem has_choices_append (path : PrimPath) (rest : List Segment) :
    (path.append rest).hasChoices =
      (path.hasChoices || rest.any fun segment => !segment.choices.isEmpty) := by
  simp [hasChoices, append]

/-- The prims on the way to a prim carry no choice either. -/
theorem strip_eq_self_of_append {path : PrimPath} {rest : List Segment}
    (h : (path.append rest).hasChoices = false) : path.stripChoices = path := by
  rw [has_choices_append, Bool.or_eq_false_iff] at h
  exact strip_eq_self h.1

/-- The paths of the children of a prim are those that end in no choice and have it as parent. -/
theorem is_child_iff {path site : PrimPath} :
    path.endsInChoice = false ∧ path.parent? = some site ↔ ∃ name, path = site.push name := by
  constructor
  · rintro ⟨hplain, hparent⟩
    obtain ⟨segments⟩ := path
    rcases List.eq_nil_or_concat segments with rfl | ⟨front, last, rfl⟩
    · simp [parent?, isRoot] at hparent
    · obtain ⟨name, choices⟩ := last
      simp only [parent?, isRoot, endsInChoice] at hparent hplain
      obtain rfl : ⟨front⟩ = site := by simpa using hparent
      refine ⟨name, ?_⟩
      simp_all [push, Segment.plain]
  · rintro ⟨name, rfl⟩
    simp [endsInChoice, parent?, isRoot, push, Segment.plain]

@[simp]
theorem has_choices_push (path : PrimPath) (name : String) :
    (path.push name).hasChoices = path.hasChoices := by
  simp [push_eq_append, Segment.plain]

/-- A prim is named below the prim or the root directly above it. -/
theorem exists_eq_push {path : PrimPath} (hroot : path.isRoot = false)
    (hplain : path.hasChoices = false) : ∃ (parent : PrimPath) (name : String), path = parent.push name := by
  obtain ⟨segments⟩ := path
  cases List.eq_nil_or_concat segments with
  | inl hnil =>
      subst hnil
      cases hroot
  | inr hconcat =>
      obtain ⟨front, ⟨name, choices⟩, rfl⟩ := hconcat
      have hchoices : choices = [] :=
        has_choices_eq_false_iff.mp hplain ⟨name, choices⟩ (by simp)
      subst hchoices
      exact ⟨⟨front⟩, name, by simp [push, Segment.plain]⟩

/-- Paths that overlap are about prims that overlap. -/
theorem overlaps_strip {first second : PrimPath} (h : first.overlaps second = true) :
    first.stripChoices.overlaps second.stripChoices = true := by
  rcases overlaps_iff.mp h with ⟨rest, rfl⟩ | ⟨rest, rfl⟩
  · exact overlaps_iff.mpr (.inl ⟨_, strip_append second rest⟩)
  · exact overlaps_iff.mpr (.inr ⟨_, strip_append first rest⟩)

/-! ## Prims below -/

/-- The prim reached from a path by names. -/
def descend (path : PrimPath) (names : List String) : PrimPath :=
  path.append (names.map .plain)

@[simp]
theorem descend_nil (path : PrimPath) : path.descend [] = path := by simp [descend]

@[simp]
theorem has_choices_descend (path : PrimPath) (names : List String) :
    (path.descend names).hasChoices = path.hasChoices := by
  simp [descend, Segment.plain]

@[simp]
theorem depth_descend (path : PrimPath) (names : List String) :
    (path.descend names).depth = path.depth + names.length := by
  simp [descend]

/-- A continuation without choices is one by names. -/
theorem append_eq_descend {path : PrimPath} {rest : List Segment}
    (h : (path.append rest).hasChoices = false) :
    path.append rest = path.descend (rest.map (·.name)) := by
  have hplain : ∀ segment ∈ rest, segment.choices = [] := by
    simpa using (show path.hasChoices = false ∧ _ by simpa using h).2
  have hrest : (rest.map (·.name)).map .plain = rest := by
    rw [List.map_map]
    exact Segment.map_plain_name hplain
  rw [descend, hrest]

end PrimPath

end LayeredShading
