import LayeredShading.Network.Resolution
import LayeredShading.Proofs.Composition.Children
import Mathlib.Data.List.Nodup

/-!
# Traversal

`Stage.traverse` lists a scene as far down as `depthBound` allows. `Search` is the same listing
without a bound: a search that keeps the paths still to be visited and puts the children of each
visited path in front of them. `search_terminates` says that the search ends, on every layer stack,
with the list that `traverse` gives, so the bound cuts nothing off. `traverse_consistent_listing`
collects what the list is good for; resolving a terminal everywhere gives one record for each
listed material (`all_perm`) in the order of the paths (`all_ascending`).
-/

namespace LayeredShading

/-- Every prim named on the path has a valid name. -/
def PrimPath.WellNamed (path : PrimPath) : Prop :=
  ∀ segment ∈ path.segments, isPrimName segment.name = true

instance (path : PrimPath) : Decidable path.WellNamed :=
  inferInstanceAs (Decidable (∀ segment ∈ path.segments, isPrimName segment.name = true))

/-- A search of the scene: the paths still to be visited, the next one first, and the prims that
have been listed. -/
structure Search where
  pending : List PrimPath
  listed : List PrimPath

namespace Stage

/-- The paths of the children of a path, those without a valid name left out. -/
def childPaths (stage : Stage) (path : PrimPath) : List PrimPath :=
  ((stage.children path).filter isPrimName).map path.push

end Stage

namespace Search

/-- The search before its first visit. -/
def start : Search := ⟨[.root], []⟩

/-- Visit the next path: list it unless it is the root, and visit its children before all that is
pending. There is no next visit when nothing is pending. -/
def next? (stage : Stage) (search : Search) : Option Search :=
  match search.pending with
  | [] => none
  | path :: rest =>
    some ⟨stage.childPaths path ++ rest,
      if path.isRoot then search.listed else search.listed ++ [path]⟩

/-- The search after exactly this many visits. -/
def run (stage : Stage) : Nat → Search → Option Search
  | 0, search => some search
  | visits + 1, search => next? stage search >>= run stage visits

/-- Visits made in two parts are made one part after the other. -/
theorem run_add (stage : Stage) (first second : Nat) (search : Search) :
    run stage (first + second) search = (run stage first search >>= run stage second) := by
  induction first generalizing search with
  | zero => simp [run]
  | succ first ih =>
      simp only [Nat.succ_add, run]
      cases next? stage search with
      | none => rfl
      | some following => exact ih following

end Search

namespace Stage

variable {stage : Stage}

/-! ## Children -/

/-- The children of a path are listed once each. -/
theorem children_nodup (path : PrimPath) : (stage.children path).Nodup := by
  unfold children
  split
  · exact nodup_addAllNew List.nodup_nil _
  · cases hprim : stage.prim? path with
    | none => simp
    | some prim =>
        have hchildren := congrArg ComposedPrim.children (compose_eq_some hprim)
        simp only [Option.map_some, Option.getD_some, hchildren, ComposedPrim.ofSpec]
        exact nodup_addAllNew List.nodup_nil _

/-- The children of a path compose. -/
theorem has_prim_push {path : PrimPath} {name : String} (h : name ∈ stage.children path) :
    stage.hasPrim (path.push name) = true := by
  unfold children at h
  split at h
  next hroot =>
    have hpath : path = .root := by
      cases path
      simpa [PrimPath.isRoot, PrimPath.root] using hroot
    rw [hpath]
    exact compose_root_push h
  next =>
    cases hprim : stage.prim? path with
    | none => simp [hprim] at h
    | some prim =>
        simp only [hprim, Option.map_some, Option.getD_some] at h
        exact compose_push hprim h

/-- A composed prim is not as deep as `depthBound`. -/
theorem depth_lt_of_has_prim {path : PrimPath} (h : stage.hasPrim path = true) :
    path.depth < depthBound stage.layers :=
  Nat.lt_succ_of_le (depth_le_of_compose h)

/-- Paths as deep as `depthBound` have no children. -/
theorem child_paths_eq_nil {path : PrimPath} (h : depthBound stage.layers ≤ path.depth) :
    stage.childPaths path = [] := by
  rw [childPaths, List.map_eq_nil_iff]
  apply List.filter_eq_nil_iff.mpr
  intro name hname
  have hdepth := depth_lt_of_has_prim (has_prim_push hname)
  simp only [PrimPath.depth_push] at hdepth
  omega

theorem mem_child_paths {path child : PrimPath} :
    child ∈ stage.childPaths path ↔
      ∃ name ∈ stage.children path, isPrimName name = true ∧ path.push name = child := by
  simp [childPaths, and_assoc]

/-! ## The bounded listing -/

/-- The listing below a path, in terms of the paths of its children. -/
theorem traverse_below_succ (levels : Nat) (path : PrimPath) :
    stage.traverseBelow (levels + 1) path =
      (stage.childPaths path).flatMap fun child => child :: stage.traverseBelow levels child := by
  rw [traverseBelow, childPaths, List.flatMap_map]

/-- What is listed below a path lies properly below it. -/
theorem exists_append_of_mem_traverse_below {levels : Nat} {path below : PrimPath}
    (h : below ∈ stage.traverseBelow levels path) :
    ∃ segment rest, below = path.append (segment :: rest) := by
  induction levels generalizing path with
  | zero => simp [traverseBelow] at h
  | succ levels ih =>
      rw [traverse_below_succ, List.mem_flatMap] at h
      obtain ⟨child, hchild, hbelow⟩ := h
      obtain ⟨name, -, -, rfl⟩ := mem_child_paths.mp hchild
      rcases List.mem_cons.mp hbelow with rfl | hbelow
      · exact ⟨.plain name, [], rfl⟩
      · obtain ⟨segment, rest, rfl⟩ := ih hbelow
        exact ⟨.plain name, segment :: rest, by simp [PrimPath.push_eq_append]⟩

/-- What is listed below a path is not the path. -/
theorem not_mem_traverse_below (levels : Nat) (path : PrimPath) :
    path ∉ stage.traverseBelow levels path := by
  intro h
  obtain ⟨segment, rest, heq⟩ := exists_append_of_mem_traverse_below h
  have hdepth := congrArg PrimPath.depth heq
  simp at hdepth

/-- No path is listed twice. -/
theorem traverse_below_nodup (levels : Nat) (path : PrimPath) :
    (stage.traverseBelow levels path).Nodup := by
  induction levels generalizing path with
  | zero => simp [traverseBelow]
  | succ levels ih =>
      rw [traverseBelow, List.nodup_flatMap]
      refine ⟨fun name _ => List.nodup_cons.mpr ⟨not_mem_traverse_below _ _, ih _⟩, ?_⟩
      refine ((children_nodup path).filter _).imp fun hne => ?_
      -- the segment after the path tells the subtrees of two children apart
      have hunder : ∀ (name : String) (below : PrimPath),
          below ∈ path.push name :: stage.traverseBelow levels (path.push name) →
            ∃ rest, below = path.append (.plain name :: rest) := by
        intro name below hbelow
        rcases List.mem_cons.mp hbelow with rfl | hbelow
        · exact ⟨[], rfl⟩
        · obtain ⟨segment, rest, rfl⟩ := exists_append_of_mem_traverse_below hbelow
          exact ⟨segment :: rest, by simp [PrimPath.push_eq_append]⟩
      intro below hfirst hsecond
      obtain ⟨rest, rfl⟩ := hunder _ _ hfirst
      obtain ⟨others, hsame⟩ := hunder _ _ hsecond
      simp only [PrimPath.append, PrimPath.mk.injEq, List.append_cancel_left_eq, List.cons.injEq,
        Segment.plain, Segment.mk.injEq] at hsame
      exact hne hsame.1.1

/-- Everything listed composes. -/
theorem has_prim_of_mem_traverse_below {levels : Nat} {path below : PrimPath}
    (h : below ∈ stage.traverseBelow levels path) : stage.hasPrim below = true := by
  induction levels generalizing path with
  | zero => simp [traverseBelow] at h
  | succ levels ih =>
      rw [traverse_below_succ, List.mem_flatMap] at h
      obtain ⟨child, hchild, hbelow⟩ := h
      obtain ⟨name, hname, -, rfl⟩ := mem_child_paths.mp hchild
      rcases List.mem_cons.mp hbelow with rfl | hbelow
      · exact has_prim_push hname
      · exact ih hbelow

/-- What is listed below a path is a child of the path or of a prim that is listed before it. -/
theorem parent_before_of_mem_traverse_below {levels : Nat} {path below : PrimPath}
    (h : below ∈ stage.traverseBelow levels path) :
    ∃ parent name, below = parent.push name ∧
      (parent = path ∨ [parent, below].Sublist (stage.traverseBelow levels path)) := by
  induction levels generalizing path with
  | zero => simp [traverseBelow] at h
  | succ levels ih =>
      rw [traverse_below_succ] at h ⊢
      obtain ⟨child, hchild, hbelow⟩ := List.mem_flatMap.mp h
      obtain ⟨childName, -, -, hpush⟩ := mem_child_paths.mp hchild
      have hpart : (child :: stage.traverseBelow levels child).Sublist
          ((stage.childPaths path).flatMap fun child =>
            child :: stage.traverseBelow levels child) := by
        rw [List.flatMap_def]
        exact List.sublist_flatten_of_mem (List.mem_map.mpr ⟨child, hchild, rfl⟩)
      rcases List.mem_cons.mp hbelow with rfl | hbelow
      · exact ⟨path, childName, hpush.symm, .inl rfl⟩
      · -- Within the part of the child, the child stands before all that is listed below it.
        obtain ⟨parent, name, rfl, rfl | hbefore⟩ := ih hbelow
        · have hpair := (List.singleton_sublist.mpr hbelow).cons_cons parent
          exact ⟨parent, name, rfl, .inr (hpair.trans hpart)⟩
        · exact ⟨parent, name, rfl, .inr ((hbefore.cons _).trans hpart)⟩

/-- One level more lists nothing new when the levels reach down to `depthBound`. -/
theorem traverse_below_stable {levels : Nat} {path : PrimPath}
    (h : depthBound stage.layers ≤ path.depth + levels) :
    stage.traverseBelow (levels + 1) path = stage.traverseBelow levels path := by
  induction levels generalizing path with
  | zero => rw [traverse_below_succ, child_paths_eq_nil h]; rfl
  | succ levels ih =>
      rw [traverse_below_succ, traverse_below_succ]
      apply List.flatMap_congr
      intro child hchild
      obtain ⟨name, -, -, rfl⟩ := mem_child_paths.mp hchild
      rw [ih (by simp only [PrimPath.depth_push]; omega)]

/-- The children of what is listed are listed one level further down. -/
theorem mem_traverse_below_of_mem_child_paths {levels : Nat} {path below child : PrimPath}
    (h : below ∈ stage.traverseBelow levels path) (hchild : child ∈ stage.childPaths below) :
    child ∈ stage.traverseBelow (levels + 1) path := by
  induction levels generalizing path with
  | zero => simp [traverseBelow] at h
  | succ levels ih =>
      rw [traverse_below_succ, List.mem_flatMap] at h ⊢
      obtain ⟨above, habove, hbelow⟩ := h
      refine ⟨above, habove, List.mem_cons_of_mem _ ?_⟩
      rcases List.mem_cons.mp hbelow with rfl | hbelow
      · rw [traverse_below_succ, List.mem_flatMap]
        exact ⟨child, hchild, List.mem_cons_self⟩
      · exact ih hbelow

/-! ## The search -/

/-- Pending paths are visited one after the other, each with what is visited for it. -/
theorem search_each {children : List PrimPath} {subtree : PrimPath → List PrimPath}
    (h : ∀ child ∈ children, ∀ rest listed, ∃ visits,
      Search.run stage visits ⟨child :: rest, listed⟩ = some ⟨rest, listed ++ subtree child⟩)
    (rest listed : List PrimPath) :
    ∃ visits, Search.run stage visits ⟨children ++ rest, listed⟩ =
      some ⟨rest, listed ++ children.flatMap subtree⟩ := by
  induction children generalizing listed with
  | nil => exact ⟨0, by simp [Search.run]⟩
  | cons child others ih =>
      obtain ⟨first, hfirst⟩ := h child List.mem_cons_self (others ++ rest) listed
      obtain ⟨second, hsecond⟩ :=
        ih (fun other hother => h other (List.mem_cons_of_mem _ hother)) (listed ++ subtree child)
      refine ⟨first + second, ?_⟩
      rw [Search.run_add, List.cons_append, hfirst]
      simpa using hsecond

/-- The search lists the subtree of a pending path before it goes on. -/
theorem search_below {levels : Nat} {path : PrimPath} (rest listed : List PrimPath)
    (h : depthBound stage.layers ≤ path.depth + levels) :
    ∃ visits, Search.run stage visits ⟨path :: rest, listed⟩ =
      some ⟨rest, (if path.isRoot then listed else listed ++ [path]) ++
        stage.traverseBelow levels path⟩ := by
  induction levels generalizing path rest listed with
  | zero =>
      refine ⟨1, ?_⟩
      simp [Search.run, Search.next?, child_paths_eq_nil h, traverseBelow]
  | succ levels ih =>
      have hchild : ∀ child ∈ stage.childPaths path, ∀ rest listed, ∃ visits,
          Search.run stage visits ⟨child :: rest, listed⟩ =
            some ⟨rest, listed ++ child :: stage.traverseBelow levels child⟩ := by
        intro child hmem rest listed
        obtain ⟨name, -, -, rfl⟩ := mem_child_paths.mp hmem
        have hdepth : depthBound stage.layers ≤ (path.push name).depth + levels := by
          rw [PrimPath.depth_push]
          omega
        have hnotRoot : (path.push name).isRoot = false := by
          simp [PrimPath.is_root_eq_false_iff]
        obtain ⟨visits, hvisits⟩ := ih rest listed hdepth
        exact ⟨visits, by simpa [hnotRoot] using hvisits⟩
      -- The first visit is that of the path itself; it puts the children in front.
      obtain ⟨visits, hvisits⟩ :=
        search_each hchild rest (if path.isRoot then listed else listed ++ [path])
      refine ⟨visits + 1, ?_⟩
      rw [traverse_below_succ]
      simpa [Search.run, Search.next?] using hvisits

/-- On every layer stack the search ends, with the list that `traverse` gives. -/
theorem search_terminates (stage : Stage) :
    ∃ visits, Search.run stage visits .start = some ⟨[], stage.traverse⟩ := by
  have hdepth : depthBound stage.layers ≤ PrimPath.root.depth + depthBound stage.layers :=
    Nat.le_add_left _ _
  obtain ⟨visits, hvisits⟩ := search_below [] [] hdepth
  exact ⟨visits, by simpa [Search.start, PrimPath.isRoot, PrimPath.root, traverse] using hvisits⟩

/-! ## Consistency -/

/-- The names of children come from the paths of specs. -/
theorem exists_mem_child_names {path : PrimPath} {name : String}
    (h : name ∈ stage.children path) :
    ∃ layer ∈ stage.layers, ∃ site, name ∈ layer.childNames site := by
  unfold children at h
  split at h
  next =>
    simp only [rootChildren, mem_addAllNew, List.not_mem_nil, false_or, List.mem_flatMap] at h
    obtain ⟨layer, hlayer, hname⟩ := h
    exact ⟨layer, hlayer, .root, hname⟩
  next =>
    cases hprim : stage.prim? path with
    | none => simp [hprim] at h
    | some prim =>
        have hchildren := congrArg ComposedPrim.children (compose_eq_some hprim)
        simp only [hprim, Option.map_some, Option.getD_some, hchildren, ComposedPrim.ofSpec,
          mem_addAllNew, List.not_mem_nil, false_or, List.mem_flatMap] at h
        obtain ⟨opinion, hopinion, hname⟩ := h
        exact ⟨opinion.layer, (Opinion.authored_of_mem_gather hopinion).1, opinion.site, hname⟩

/-- Where the paths of all specs are well named, every child has a valid name. -/
theorem is_prim_name_of_mem_children
    (hnamed : ∀ layer ∈ stage.layers, ∀ path ∈ layer.specs.keys, path.WellNamed)
    {path : PrimPath} {name : String} (h : name ∈ stage.children path) :
    isPrimName name = true := by
  obtain ⟨layer, hlayer, site, hname⟩ := exists_mem_child_names h
  obtain ⟨spec, hspec⟩ := Option.isSome_iff_exists.mp (Opinion.mem_child_names.mp hname)
  have hkey : site.push name ∈ layer.specs.keys := SortedMap.mem_keys_iff.mpr ⟨spec, hspec⟩
  exact hnamed layer hlayer _ hkey (.plain name) (by simp [PrimPath.push])

/-- What a listing of a scene is good for. -/
structure ConsistentListing (stage : Stage) (listing : List PrimPath) : Prop where
  /-- A search without a bound ends with the listing. -/
  terminates : ∃ visits, Search.run stage visits .start = some ⟨[], listing⟩
  distinct : listing.Nodup
  composes : ∀ path ∈ listing, stage.hasPrim path = true
  /-- The parent of a listed prim that is not at the top is listed before it. -/
  parent_before : ∀ path ∈ listing, 1 < path.depth →
    ∃ parent, path.parent? = some parent ∧ [parent, path].Sublist listing
  children_listed : ∀ path, path = .root ∨ path ∈ listing →
    ∀ name ∈ stage.children path, path.push name ∈ listing

/-- If the paths of all specs are well named, the listing of the scene is consistent. -/
theorem traverse_consistent_listing
    (hnamed : ∀ layer ∈ stage.layers, ∀ path ∈ layer.specs.keys, path.WellNamed) :
    stage.ConsistentListing stage.traverse where
  terminates := search_terminates stage
  distinct := traverse_below_nodup _ _
  composes := fun _ hpath => has_prim_of_mem_traverse_below hpath
  parent_before := by
    intro path hpath hdepth
    obtain ⟨parent, name, rfl, rfl | hbefore⟩ := parent_before_of_mem_traverse_below hpath
    · simp [PrimPath.depth, PrimPath.push, PrimPath.root] at hdepth
    · exact ⟨parent, by simp [PrimPath.parent?, PrimPath.isRoot, PrimPath.push], hbefore⟩
  children_listed := by
    intro path hpath name hname
    have hchild : path.push name ∈ stage.childPaths path :=
      mem_child_paths.mpr ⟨name, hname, is_prim_name_of_mem_children hnamed hname, rfl⟩
    have hdepth : depthBound stage.layers ≤ PrimPath.root.depth + depthBound stage.layers :=
      Nat.le_add_left _ _
    rw [traverse, ← traverse_below_stable hdepth]
    rcases hpath with rfl | hpath
    · rw [traverse_below_succ, List.mem_flatMap]
      exact ⟨_, hchild, List.mem_cons_self⟩
    · exact mem_traverse_below_of_mem_child_paths hpath hchild

end Stage

namespace Resolution

variable {stage : Stage}

/-- Resolving a terminal everywhere gives one record for each listed material. -/
theorem all_perm (kind : TerminalKind) (contexts : List String) :
    (all stage kind contexts).Perm
      ((stage.traverse.filter (Material.isMaterial stage)).map fun material =>
        ⟨material, kind, Material.resolve stage material kind contexts⟩) :=
  List.mergeSort_perm _ _

/-- The records of different materials are in the order of their paths. -/
theorem all_ascending (kind : TerminalKind) (contexts : List String) :
    (all stage kind contexts).Pairwise fun first second =>
      compare first.material second.material = .lt := by
  have hsorted : (all stage kind contexts).Pairwise fun first second =>
      (compare first.material second.material).isLE = true := by
    apply List.pairwise_mergeSort
    · exact fun _ _ _ => Std.TransCmp.isLE_trans
    · intro first second
      cases horder : compare first.material second.material with
      | gt => simp [Std.OrientedCmp.lt_of_gt horder]
      | _ => simp
  -- Sorting gives an order with ties; there are none because no material is listed twice.
  have hdistinct : ((all stage kind contexts).map (·.material)).Nodup := by
    rw [((all_perm kind contexts).map (·.material)).nodup_iff, List.map_map]
    have htraverse : stage.traverse.Nodup := Stage.traverse_below_nodup _ _
    simpa [Function.comp_def] using htraverse.filter (Material.isMaterial stage)
  refine (hsorted.and (List.pairwise_map.mp hdistinct)).imp fun ⟨hle, hne⟩ => ?_
  rcases Ordering.isLE_iff_eq_lt_or_eq_eq.mp hle with hlt | heq
  · exact hlt
  · exact absurd (Std.LawfulEqCmp.eq_of_compare heq) hne

end Resolution

namespace Stage

/-- On a layer stack with well named specs the scene is finite and listed consistently: no prim is
deeper than the longest chain of arcs times the depth of the deepest spec, and resolving a terminal
everywhere gives one record for each listed material, in strictly ascending order of the paths. -/
theorem traversal_finite_and_consistent (stage : Stage)
    (hnamed : ∀ layer ∈ stage.layers, ∀ path ∈ layer.specs.keys, path.WellNamed) :
    stage.ConsistentListing stage.traverse ∧
      (∀ path, stage.hasPrim path = true →
        path.depth ≤ maxArcDepth * deepestSpec stage.layers) ∧
      ∀ kind contexts,
        (Resolution.all stage kind contexts).Perm
          ((stage.traverse.filter (Material.isMaterial stage)).map fun material =>
            ⟨material, kind, Material.resolve stage material kind contexts⟩) ∧
        (Resolution.all stage kind contexts).Pairwise fun first second =>
          compare first.material second.material = .lt :=
  ⟨traverse_consistent_listing hnamed, fun _ h => depth_le_of_compose h, fun kind contexts =>
    ⟨Resolution.all_perm kind contexts, Resolution.all_ascending kind contexts⟩⟩

/-- The prims `/A/X` and `/B/Y` refer to `/B` and `/A`, so that each is found again below the
other. -/
def mutuallyNested : Stage :=
  .ofLayers [⟨"root", .ofList [
    (⟨[.plain "A"]⟩, .blank .define),
    (⟨[.plain "A", .plain "X"]⟩, { PrimSpec.blank .define with references := [⟨[.plain "B"]⟩] }),
    (⟨[.plain "B"]⟩, .blank .define),
    (⟨[.plain "B", .plain "Y"]⟩, { PrimSpec.blank .define with references := [⟨[.plain "A"]⟩] })]⟩]

/-- The listing of that scene, which has prims deeper than every spec, is consistent. -/
theorem mutually_nested_listing_consistent :
    (∀ layer ∈ mutuallyNested.layers, ∀ path ∈ layer.specs.keys, path.WellNamed) ∧
      mutuallyNested.ConsistentListing mutuallyNested.traverse ∧
      mutuallyNested.hasPrim ⟨[.plain "A", .plain "X", .plain "Y", .plain "X"]⟩ = true :=
  ⟨by decide, (traversal_finite_and_consistent mutuallyNested (by decide)).1, by decide⟩

end Stage

end LayeredShading
