import LayeredShading.Proofs.Composition.ArcChain
import LayeredShading.Stage.Basic

/-!
# Extent of the composed scene

The prims that compose form a finite scene, whatever the arcs are. An arc replaces the path of its
owner, which has a spec, by a path that is no root, so it shortens a path by less than the depth of
the deepest spec (`ArcStep.depth_le`), and every chain of arcs ends at a prim with a spec. This
bounds the depth of composed prims (`depth_le_of_compose`). The names on the path of a composed
prim come from the paths of specs (`named_of_compose`).
-/

namespace LayeredShading

namespace Opinion

variable {layers : List Layer}

/-! ## Sites -/

/-- A site of a prim is its path or its path with a choice at a prim on the way. -/
theorem mem_local_sites {path site : PrimPath} :
    site ∈ localSites layers path ↔
      site = path ∨ ∃ depth choice, (depth, choice) ∈ selectionsOn layers path ∧
        depth ≤ path.depth ∧ site = path.choose depth choice := by
  simp only [localSites, sites, List.mem_cons, List.mem_map, List.mem_filter, decide_eq_true_eq]
  constructor
  · rintro (h | ⟨⟨depth, choice⟩, ⟨hmem, hle⟩, rfl⟩)
    · exact .inl h
    · exact .inr ⟨depth, choice, hmem, hle, rfl⟩
  · rintro (h | ⟨depth, choice, hmem, hle, rfl⟩)
    · exact .inl h
    · exact .inr ⟨(depth, choice), ⟨hmem, hle⟩, rfl⟩

/-- A site of a prim is about that prim. -/
theorem strip_of_mem_local_sites {path site : PrimPath} (h : site ∈ localSites layers path) :
    site.stripChoices = path.stripChoices := by
  rcases mem_local_sites.mp h with rfl | ⟨_, _, _, _, rfl⟩
  · rfl
  · simp

theorem depth_of_mem_local_sites {path site : PrimPath} (h : site ∈ localSites layers path) :
    site.depth = path.depth := by
  rw [← PrimPath.depth_strip site, strip_of_mem_local_sites h, PrimPath.depth_strip]

/-! ## Depth -/

/-- A maximum is at least every element. -/
theorem le_foldl_max {values : List Nat} {start value : Nat} (h : value ≤ start ∨ value ∈ values) :
    value ≤ values.foldl max start := by
  induction values generalizing start with
  | nil => simpa using h
  | cons head rest ih =>
      apply ih
      rcases h with h | h
      · exact .inl (by omega)
      · rcases List.mem_cons.mp h with rfl | h
        · exact .inl (by omega)
        · exact .inr h

/-- No spec is deeper than the deepest one. -/
theorem depth_le_deepest_spec {layer : Layer} {path : PrimPath} (hlayer : layer ∈ layers)
    (hspec : (layer.spec? path).isSome = true) : path.depth ≤ Stage.deepestSpec layers := by
  obtain ⟨spec, hspec⟩ := Option.isSome_iff_exists.mp hspec
  apply le_foldl_max
  refine .inr (List.mem_flatMap.mpr ⟨layer, hlayer, List.mem_map.mpr ⟨path, ?_, rfl⟩⟩)
  exact SortedMap.mem_keys_iff.mpr ⟨spec, hspec⟩

theorem Stands.depth_le {layer : Layer} {site path : PrimPath} (h : Stands layers layer site path) :
    path.depth ≤ Stage.deepestSpec layers := by
  rw [← depth_of_mem_local_sites h.site_mem]
  exact depth_le_deepest_spec h.layer_mem h.authored

/-- The owner of an arc has a spec at one of its sites. -/
theorem exists_stands_of_mem_arcs_from {path : PrimPath} {arc : Arc}
    (h : arc ∈ arcsFrom layers path) : ∃ layer site, Stands layers layer site arc.owner := by
  obtain ⟨-, -, spec, hmem, -⟩ := exists_of_mem_arcs_from h
  obtain ⟨layer, hlayer, site, hsite, hspec⟩ := mem_specs_on.mp hmem
  exact ⟨layer, site, hlayer, hsite, by simp [hspec]⟩

/-- An arc shortens a path by less than the depth of the deepest spec. -/
theorem ArcStep.depth_le {path source : PrimPath} (h : ArcStep layers path source) :
    path.depth < source.depth + Stage.deepestSpec layers := by
  obtain ⟨arc, harc, rest, rfl, rfl⟩ := h.exists_append
  obtain ⟨-, hapart, -⟩ := exists_of_mem_arcs_from harc
  obtain ⟨layer, site, hstands⟩ := exists_stands_of_mem_arcs_from harc
  have howner := hstands.depth_le
  have hsource : 0 < arc.source.depth := by
    -- the root lies above every prim, so an arc to it is ignored
    rw [Nat.pos_iff_ne_zero]
    intro hzero
    have hroot : arc.source.segments = [] := List.length_eq_zero_iff.mp hzero
    simp [PrimPath.overlaps, PrimPath.isUnder, hroot] at hapart
  simp only [PrimPath.depth_append]
  omega

/-- The first path of a chain is deeper than the last one by at most the depth of the deepest spec
for each step. -/
theorem ArcChain.depth_le {path : PrimPath} {rest : List PrimPath}
    (h : ArcChain layers (path :: rest)) :
    path.depth ≤ ((path :: rest).getLast (List.cons_ne_nil path rest)).depth +
      rest.length * Stage.deepestSpec layers := by
  induction rest generalizing path with
  | nil => simp
  | cons source rest ih =>
      have hstep := h.step.depth_le
      have hrest := ih h.tail
      rw [List.getLast_cons (List.cons_ne_nil source rest), List.length_cons, Nat.succ_mul]
      omega

/-! ## Names -/

/-- The segments of the paths of all specs. -/
def specSegments (layers : List Layer) : List Segment :=
  layers.flatMap fun layer => layer.specs.keys.flatMap PrimPath.segments

/-- The names on a path come from the paths of specs. -/
def Named (layers : List Layer) (path : PrimPath) : Prop :=
  ∀ segment ∈ path.segments, segment.name ∈ (specSegments layers).map (·.name)

theorem Stands.named {layer : Layer} {site path : PrimPath} (h : Stands layers layer site path) :
    Named layers path := by
  intro segment hmem
  obtain ⟨spec, hspec⟩ := Option.isSome_iff_exists.mp h.authored
  have hnames : site.segments.map (·.name) = path.segments.map (·.name) := by
    have hstrip := congrArg (fun path => path.segments.map (·.name))
      (strip_of_mem_local_sites h.site_mem)
    simpa [PrimPath.stripChoices, Segment.plain, Function.comp_def] using hstrip
  have hname : segment.name ∈ site.segments.map (·.name) := by
    rw [hnames]
    exact List.mem_map.mpr ⟨segment, hmem, rfl⟩
  obtain ⟨other, hother, hsame⟩ := List.mem_map.mp hname
  refine List.mem_map.mpr ⟨other, List.mem_flatMap.mpr ⟨layer, h.layer_mem, ?_⟩, hsame⟩
  exact List.mem_flatMap.mpr ⟨site, SortedMap.mem_keys_iff.mpr ⟨spec, hspec⟩, hother⟩

/-- If the names at the end of a step come from specs, so do those at its start. -/
theorem ArcStep.named {path source : PrimPath} (h : ArcStep layers path source)
    (hsource : Named layers source) : Named layers path := by
  obtain ⟨arc, harc, rest, rfl, rfl⟩ := h.exists_append
  obtain ⟨layer, site, hstands⟩ := exists_stands_of_mem_arcs_from harc
  intro segment hmem
  -- A segment belongs to the owner, which has a spec, or is taken along to the source.
  rcases List.mem_append.mp hmem with hmem | hmem
  · exact hstands.named segment hmem
  · exact hsource segment (List.mem_append.mpr (.inr hmem))

theorem ArcChain.named {path : PrimPath} {rest : List PrimPath}
    (h : ArcChain layers (path :: rest))
    (hlast : Named layers ((path :: rest).getLast (List.cons_ne_nil path rest))) :
    Named layers path := by
  induction rest generalizing path with
  | nil => exact hlast
  | cons source rest ih =>
      refine h.step.named (ih h.tail ?_)
      rwa [List.getLast_cons (List.cons_ne_nil source rest)] at hlast

/-! ## Ranks -/

/-- Arcs lead from prims below one top-level prim to prims below another one of lower rank. -/
def Ranked (layers : List Layer) (rank : String → Nat) : Prop :=
  ∀ layer ∈ layers, ∀ entry ∈ layer.specs.entries, ∀ target ∈ entry.2.arcTargets,
    rank target.topName < rank entry.1.topName

theorem ArcStep.rank_lt {rank : String → Nat} (hranked : Ranked layers rank)
    {path source : PrimPath} (h : ArcStep layers path source) :
    rank source.topName < rank path.topName := by
  obtain ⟨arc, harc, rest, rfl, rfl⟩ := h.exists_append
  obtain ⟨howner, hapart, spec, hspec, htarget⟩ := exists_of_mem_arcs_from harc
  obtain ⟨layer, hlayer, site, hsite, hauthored⟩ := mem_specs_on.mp hspec
  have hlt := hranked layer hlayer (site, spec) (SortedMap.get?_eq_some_iff.mp hauthored)
    arc.source htarget
  have hsame : site.topName = arc.owner.topName := by
    rw [← PrimPath.top_name_strip, strip_of_mem_local_sites hsite, PrimPath.top_name_strip]
  rw [PrimPath.top_name_append (PrimPath.depth_pos_of_apart hapart),
    PrimPath.top_name_append (PrimPath.mem_ancestry_iff.mp howner).1, ← hsame]
  exact hlt

/-- Where arcs lead to lower ranks, the rank of the end of a chain is lower than that of its start
by at least its length. -/
theorem ArcChain.rank_last_le {rank : String → Nat} (hranked : Ranked layers rank)
    {path : PrimPath} {rest : List PrimPath} (h : ArcChain layers (path :: rest)) :
    rank ((path :: rest).getLast (List.cons_ne_nil path rest)).topName + rest.length ≤
      rank path.topName := by
  induction rest generalizing path with
  | nil => exact Nat.le_refl _
  | cons source rest ih =>
      have hstep := h.step.rank_lt hranked
      have hrest := ih h.tail
      rw [List.getLast_cons (List.cons_ne_nil source rest), List.length_cons]
      omega

/-- Where arcs lead to lower ranks, no chain is longer than the rank of its start. -/
theorem ArcChain.length_le_rank {rank : String → Nat} (hranked : Ranked layers rank)
    {path : PrimPath} {rest : List PrimPath} (h : ArcChain layers (path :: rest)) :
    rest.length ≤ rank path.topName :=
  Nat.le_of_add_left_le (h.rank_last_le hranked)

end Opinion

/-! ## Composed prims -/

section Compose

variable {layers : List Layer} {path : PrimPath}

/-- A prim composes exactly if its path is that of a prim and there is an opinion on it. -/
theorem compose_is_some_iff :
    (compose layers path).isSome = true ↔
      path.isRoot = false ∧ path.hasChoices = false ∧ Opinion.gather layers path ≠ [] := by
  unfold compose
  split
  next h =>
    simp only [Bool.or_eq_true] at h
    rcases h with h | h <;> simp [h]
  next h =>
    simp only [Bool.or_eq_true, not_or, Bool.not_eq_true] at h
    cases Opinion.gather layers path <;> simp [h]

/-- There is no opinion on a prim that does not compose. -/
theorem gather_eq_nil_of_compose (hroot : path.isRoot = false) (hplain : path.hasChoices = false)
    (h : compose layers path = none) : Opinion.gather layers path = [] := by
  by_contra hne
  have hsome := compose_is_some_iff.mpr ⟨hroot, hplain, hne⟩
  simp [h] at hsome

/-- What composes has the overlay of its opinions and the names that they list. -/
theorem compose_eq_some {prim : ComposedPrim} (h : compose layers path = some prim) :
    prim = .ofSpec path (Opinion.overlayAll (Opinion.gather layers path))
      (addAllNew [] ((Opinion.gather layers path).flatMap Opinion.childNames)) := by
  unfold compose at h
  split at h
  · cases h
  · split at h
    · cases h
    · next hgather => exact (Option.some.inj h).symm

/-- A prim that composes is no deeper than the longest chain of arcs times the depth of the deepest
spec. -/
theorem depth_le_of_compose (h : (compose layers path).isSome = true) :
    path.depth ≤ maxArcDepth * Stage.deepestSpec layers := by
  obtain ⟨-, -, hgather⟩ := compose_is_some_iff.mp h
  obtain ⟨rest, layer, site, hchain, hlength, hstands⟩ := Opinion.gather_ne_nil_iff.mp hgather
  calc path.depth
      ≤ Stage.deepestSpec layers + rest.length * Stage.deepestSpec layers :=
        hchain.depth_le.trans (Nat.add_le_add_right hstands.depth_le _)
    _ = (rest.length + 1) * Stage.deepestSpec layers := by rw [Nat.succ_mul, Nat.add_comm]
    _ ≤ maxArcDepth * Stage.deepestSpec layers := Nat.mul_le_mul_right _ hlength

/-- The names on the path of a prim that composes come from the paths of specs. -/
theorem named_of_compose (h : (compose layers path).isSome = true) : Opinion.Named layers path := by
  obtain ⟨-, -, hgather⟩ := compose_is_some_iff.mp h
  obtain ⟨rest, layer, site, hchain, -, hstands⟩ := Opinion.gather_ne_nil_iff.mp hgather
  exact hchain.named hstands.named

end Compose

end LayeredShading
