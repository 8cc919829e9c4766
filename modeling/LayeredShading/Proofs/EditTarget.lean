import LayeredShading.EditTarget
import LayeredShading.Proofs.Path.Placement
import Mathlib.Data.List.Basic

/-!
# Where a target keeps opinions

A target adds the choices of its redirections to the path of a prim, one redirection after the
other. Whatever it adds, the path that it keeps is about the same prim (`strip_spec_path`), and what
it keeps of a child lies below what it keeps of the parent (`spec_path_push`). Each segment gets the
choices of its own prim's redirections and no others (`segment_spec_path`), however many
redirections there are and in whatever order they come, so a target keeps the whole namespace of the
scene (`spec_paths_keep_namespace`).
-/

namespace LayeredShading

namespace PrimPath

/-- The prim on the way that is of a depth is the one of that depth which the path leads below. -/
theorem eq_truncate_iff {path base : PrimPath} {depth : Nat} (hle : depth ≤ path.depth) :
    base = path.truncate depth ↔ path.isUnder base = true ∧ base.depth = depth := by
  constructor
  · rintro rfl
    refine ⟨is_under_iff.mpr ⟨path.segments.drop depth, ?_⟩, ?_⟩
    · exact congrArg mk (List.take_append_drop depth path.segments).symm
    · rw [depth_truncate, Nat.min_eq_left hle]
  · rintro ⟨hunder, rfl⟩
    obtain ⟨rest, rfl⟩ := is_under_iff.mp hunder
    exact congrArg mk List.take_left.symm

/-- A prim on the way is on the way to all that lies below. -/
theorem truncate_append {path : PrimPath} {depth : Nat} (hle : depth ≤ path.depth)
    (rest : List Segment) : (path.append rest).truncate depth = path.truncate depth :=
  congrArg mk (List.take_append_of_le_length hle)

/-- A choice is added to the segment of its depth and to no other. -/
theorem segment_choose (path : PrimPath) (depth : Nat) (choice : VariantChoice) (index : Nat) :
    (path.choose depth choice).segments[index]? = path.segments[index]?.map fun segment =>
      { segment with
        choices := segment.choices ++ if depth = index + 1 then [choice] else [] } := by
  cases depth with
  | zero => simp [choose]
  | succ position =>
      by_cases hindex : position = index <;> simp [choose, hindex]

end PrimPath

namespace Redirection

/-- The choices that redirections have for a prim, in their order. -/
def choicesFor (redirections : List Redirection) (prim : PrimPath) : List VariantChoice :=
  (redirections.filter fun redirection => decide (redirection.prim = prim)).map (·.choice)

theorem choices_for_cons (redirection : Redirection) (rest : List Redirection) (prim : PrimPath) :
    choicesFor (redirection :: rest) prim =
      (if redirection.prim = prim then [redirection.choice] else []) ++ choicesFor rest prim := by
  by_cases hprim : redirection.prim = prim <;> simp [choicesFor, hprim]

end Redirection

namespace EditTarget

variable {target : EditTarget} {path : PrimPath}

/-- The path at which an opinion is kept is about its prim. -/
theorem strip_spec_path (target : EditTarget) (path : PrimPath) :
    (target.specPath path).stripChoices = path.stripChoices := by
  refine List.foldlRecOn (motive := fun mapped : PrimPath =>
    mapped.stripChoices = path.stripChoices) target.redirections _ rfl ?_
  intro mapped hmapped redirection _
  split
  next => rw [PrimPath.strip_choose, hmapped]
  next => exact hmapped

/-- Redirections keep the number of prims on the way. -/
theorem depth_spec_path (target : EditTarget) (path : PrimPath) :
    (target.specPath path).depth = path.depth := by
  rw [← PrimPath.depth_strip, strip_spec_path, PrimPath.depth_strip]

/-- An opinion that is kept elsewhere than at its prim is kept in a variant. -/
theorem has_choices_spec_path (hplain : path.hasChoices = false)
    (hother : target.specPath path ≠ path) : (target.specPath path).hasChoices = true := by
  by_contra hchoices
  rw [Bool.not_eq_true] at hchoices
  refine hother ?_
  rw [← PrimPath.strip_eq_self hchoices, strip_spec_path, PrimPath.strip_eq_self hplain]

/-- A redirection adds its choice to the paths of its prim and of the prims below it. -/
theorem spec_path_redirect (prim : PrimPath) (choice : VariantChoice) :
    (target.redirect prim choice).specPath path =
      if path.stripChoices.isUnder prim.stripChoices then
        (target.specPath path).choose prim.depth choice
      else target.specPath path := by
  simp only [specPath, redirect, List.foldl_append, List.foldl_cons, List.foldl_nil,
    PrimPath.depth_strip]

/-- What a target keeps of a child it keeps below the place of the prim, perhaps in a variant of the
child. -/
theorem spec_path_push (target : EditTarget) (path : PrimPath) (name : String) :
    ∃ choices, target.specPath (path.push name) =
      (target.specPath path).append [⟨name, choices⟩] := by
  have hstrip : (path.push name).stripChoices = path.stripChoices.push name :=
    PrimPath.strip_append path [.plain name]
  let placed (child parent : PrimPath) : Prop :=
    parent.depth = path.depth ∧ ∃ choices, child = parent.append [⟨name, choices⟩]
  -- The redirections move both paths alike, but for those of the child itself.
  have hfold : placed (target.specPath (path.push name)) (target.specPath path) := by
    refine List.foldl_rel ⟨rfl, [], rfl⟩ ?_
    intro redirection _ child parent hplaced
    obtain ⟨hdepth, choices, rfl⟩ := hplaced
    rw [hstrip]
    by_cases habove : path.stripChoices.isUnder redirection.prim = true
    · have hle : redirection.prim.depth ≤ parent.depth := by
        obtain ⟨below, hbelow⟩ := PrimPath.is_under_iff.mp habove
        have hsum := congrArg PrimPath.depth hbelow
        rw [PrimPath.depth_strip, PrimPath.depth_append] at hsum
        omega
      rw [if_pos habove, if_pos (PrimPath.is_under_push_iff.mpr (.inl habove)),
        PrimPath.choose_append hle]
      exact ⟨(PrimPath.depth_choose _ _ _).trans hdepth, choices, rfl⟩
    · rw [if_neg habove]
      by_cases hself : redirection.prim = path.stripChoices.push name
      · rw [if_pos (PrimPath.is_under_push_iff.mpr (.inr hself)), hself, PrimPath.depth_push,
          PrimPath.depth_strip, ← hdepth, PrimPath.choose_last]
        exact ⟨hdepth, _, rfl⟩
      · rw [if_neg (PrimPath.is_under_push_iff.not.mpr (not_or.mpr ⟨habove, hself⟩))]
        exact ⟨hdepth, choices, rfl⟩
  exact hfold.2

/-! ## Choices on the way -/

/-- A redirection adds its choice to the segment of its prim and to no other. -/
theorem segment_redirected {plain mapped : PrimPath} {index : Nat} (hle : index + 1 ≤ plain.depth)
    (redirection : Redirection) :
    (if plain.isUnder redirection.prim then
        mapped.choose redirection.prim.depth redirection.choice
      else mapped).segments[index]? = mapped.segments[index]?.map fun segment =>
      { segment with
        choices := segment.choices ++
          if redirection.prim = plain.truncate (index + 1) then [redirection.choice] else [] } := by
  have hown := @PrimPath.eq_truncate_iff plain redirection.prim _ hle
  by_cases habove : plain.isUnder redirection.prim = true
  · rw [if_pos habove, PrimPath.segment_choose]
    simp only [hown, habove, true_and]
  · simp [habove, hown]

/-- A target adds to each segment on the way the choices of the redirections of the prim there. -/
theorem segment_spec_path (target : EditTarget) {path : PrimPath} {index : Nat}
    (hlt : index < path.depth) :
    (target.specPath path).segments[index]? = path.segments[index]?.map fun segment =>
      { segment with
        choices := segment.choices ++ Redirection.choicesFor target.redirections
          (path.stripChoices.truncate (index + 1)) } := by
  have hle : index + 1 ≤ path.stripChoices.depth := by
    rw [PrimPath.depth_strip]
    exact hlt
  unfold specPath
  -- The redirections are compared with the path itself; what they are applied to changes.
  generalize path.stripChoices = plain at hle ⊢
  generalize path = mapped
  induction target.redirections generalizing mapped with
  | nil => simp [Redirection.choicesFor]
  | cons redirection rest ih =>
      rw [List.foldl_cons, ih, segment_redirected hle, Option.map_map,
        Redirection.choices_for_cons]
      simp only [Function.comp_def, List.append_assoc]

/-- What a target keeps of a prim lies below what it keeps of the prims above. -/
theorem is_under_spec_path {below : PrimPath} (h : below.isUnder path = true) :
    (target.specPath below).isUnder (target.specPath path) = true := by
  obtain ⟨rest, rfl⟩ := PrimPath.is_under_iff.mp h
  rw [PrimPath.isUnder, List.isPrefixOf_iff_prefix, List.prefix_iff_getElem?]
  intro index hindex
  have hlt : index < path.depth := (depth_spec_path target path) ▸ hindex
  have hbelow : index < (path.append rest).depth := by
    rw [PrimPath.depth_append]
    exact Nat.lt_add_right _ hlt
  have hsame : (path.append rest).stripChoices.truncate (index + 1) =
      path.stripChoices.truncate (index + 1) := by
    rw [PrimPath.strip_append, PrimPath.truncate_append]
    rw [PrimPath.depth_strip]
    exact hlt
  rw [← List.getElem?_eq_getElem hindex, segment_spec_path target hbelow,
    segment_spec_path target hlt, hsame]
  congr 1
  exact List.getElem?_append_left hlt

end EditTarget

/-! ## How targets are made -/

/-- A step that makes a target of another one. -/
inductive Retargeting where
  | withLayer (layer : Nat)
  | redirect (prim : PrimPath) (choice : VariantChoice)
  deriving DecidableEq

namespace Retargeting

/-- The target that a step makes. -/
def apply (target : EditTarget) : Retargeting → EditTarget
  | withLayer layer => target.withLayer layer
  | redirect prim choice => target.redirect prim choice

/-- The redirection that a step adds, which is for the prim of the scene. -/
def redirection? : Retargeting → Option Redirection
  | withLayer _ => none
  | redirect prim choice => some ⟨prim.stripChoices, choice⟩

end Retargeting

namespace EditTarget

/-- The target that steps make of a layer without redirections, one after the other. -/
def made (layer : Nat) (steps : List Retargeting) : EditTarget :=
  steps.foldl Retargeting.apply (.ofLayer layer)

/-- A target has the redirections that were added to it, in the order of the steps. -/
theorem redirections_made (layer : Nat) (steps : List Retargeting) :
    (made layer steps).redirections = steps.filterMap Retargeting.redirection? := by
  have hstep : ∀ (target : EditTarget) (step : Retargeting),
      (step.apply target).redirections = target.redirections ++ step.redirection?.toList := by
    intro target step
    cases step with
    | withLayer layer => exact (List.append_nil _).symm
    | redirect prim choice => rfl
  have hfold : ∀ target : EditTarget, (steps.foldl Retargeting.apply target).redirections =
      target.redirections ++ steps.filterMap Retargeting.redirection? := by
    induction steps with
    | nil => simp
    | cons step rest ih =>
        intro target
        rw [List.foldl_cons, ih, hstep, List.append_assoc, List.filterMap_cons]
        cases step.redirection? <;> rfl
  exact hfold (.ofLayer layer)

/-- Targets keep the namespace of the scene, however they are made. Without its choices, the path
that a target keeps of a prim is that of the prim, so it keeps different prims at different paths;
and below what it keeps of a prim it keeps all that lies below the prim. The segment of each prim on
the way has exactly the choices of the redirections of that prim, in the order in which they were
added. -/
theorem spec_paths_keep_namespace (layer : Nat) (steps : List Retargeting) :
    (∀ path : PrimPath, path.hasChoices = false →
      ((made layer steps).specPath path).stripChoices = path ∧
      ∀ index < path.depth, ((made layer steps).specPath path).segments[index]?.map (·.choices) =
        some (Redirection.choicesFor (steps.filterMap Retargeting.redirection?)
          (path.truncate (index + 1)))) ∧
    (∀ first second : PrimPath, first.hasChoices = false → second.hasChoices = false →
      first ≠ second → (made layer steps).specPath first ≠ (made layer steps).specPath second) ∧
    ∀ path below : PrimPath, below.isUnder path = true →
      ((made layer steps).specPath below).isUnder ((made layer steps).specPath path) = true := by
  have hstrip : ∀ path : PrimPath, path.hasChoices = false →
      ((made layer steps).specPath path).stripChoices = path := by
    intro path hplain
    rw [strip_spec_path, PrimPath.strip_eq_self hplain]
  refine ⟨fun path hplain => ⟨hstrip path hplain, fun index hlt => ?_⟩, ?_, ?_⟩
  · have hnone : path.segments[index].choices = [] :=
      PrimPath.has_choices_eq_false_iff.mp hplain _ (List.getElem_mem hlt)
    rw [segment_spec_path _ hlt, List.getElem?_eq_getElem hlt, PrimPath.strip_eq_self hplain,
      Option.map_some, Option.map_some, hnone, List.nil_append, redirections_made]
  · intro first second hfirst hsecond hne hsame
    refine hne ?_
    rw [← hstrip first hfirst, ← hstrip second hsecond, hsame]
  · exact fun _ _ h => is_under_spec_path h

/-- Authoring on a part is redirected into a look of the part, then into one of the prim above it
and into a further one of the part, given by a path with a choice; in between the layer changes. -/
def redirectedTwice : List Retargeting := [
  .redirect ⟨[.plain "M", .plain "bolt"]⟩ ⟨"finish", "matt"⟩,
  .redirect ⟨[.plain "M"]⟩ ⟨"look", "x"⟩,
  .withLayer 0,
  .redirect ⟨[⟨"M", [⟨"look", "y"⟩]⟩, .plain "bolt"]⟩ ⟨"wear", "new"⟩]

/-- What is authored on the head of the part is kept in the look of the prim and in both of the
part, which is where what is authored on the part is kept, and not on the prim itself. -/
theorem redirected_twice_keeps_bolt :
    let bolt : PrimPath := ⟨[.plain "M", .plain "bolt"]⟩
    let head : PrimPath := ⟨[.plain "M", .plain "bolt", .plain "head"]⟩
    let target := made 1 redirectedTwice
    target.layer = 0 ∧
      target.specPath head = ⟨[⟨"M", [⟨"look", "x"⟩]⟩,
        ⟨"bolt", [⟨"finish", "matt"⟩, ⟨"wear", "new"⟩]⟩, .plain "head"]⟩ ∧
      (target.specPath head).stripChoices = head ∧
      (target.specPath head).segments[1]?.map (·.choices) =
        some [⟨"finish", "matt"⟩, ⟨"wear", "new"⟩] ∧
      target.specPath head ≠ target.specPath bolt ∧
      (target.specPath head).isUnder (target.specPath bolt) = true := by
  intro bolt head target
  obtain ⟨hkept, hapart, hbelow⟩ := spec_paths_keep_namespace 1 redirectedTwice
  obtain ⟨hstrip, hchoices⟩ := hkept head (by decide)
  refine ⟨by decide, by decide, hstrip, ?_, ?_, hbelow bolt head (by decide)⟩
  · exact (hchoices 1 (by decide)).trans (by decide)
  · exact hapart head bolt (by decide) (by decide) (by decide)

end EditTarget

end LayeredShading
