import LayeredShading.Composition.Opinion
import LayeredShading.Proofs.Path.Placement
import Mathlib.Data.List.Chain
import Mathlib.Logic.Relation

/-!
# Chains of arcs

`gatherWithin` follows arcs recursively and stops at paths that are being gathered and at a budget.
`exists_mem_gather_within_iff` opens that recursion once: an opinion is gathered exactly if it
stands at the end of a chain of arcs that meets no path twice, keeps away from the paths being
gathered and fits the budget. The remaining results say how gathering depends on its arguments: on
the paths being gathered only as far as arcs lead to them (`gather_within_congr`), on the budget
only as far as chains are longer than it (`gather_within_succ`), and on the map only by moving the
result (`gather_within_followed_by`).
-/

namespace LayeredShading

/-- The prims that a spec authors arcs to. -/
def PrimSpec.arcTargets (spec : PrimSpec) : List PrimPath :=
  spec.references ++ spec.specializes.getD []

namespace Opinion

variable (layers : List Layer)

/-- The paths where opinions on a prim stand that no arc leads to. -/
def localSites (path : PrimPath) : List PrimPath := sites (selectionsOn layers path) path

/-- The specs of a prim that no arc leads to, strongest first. -/
def specsOn (path : PrimPath) : List PrimSpec :=
  (localSites layers path).flatMap (specsAt layers)

/-- A layer has a spec at a site where opinions on a prim stand that no arc leads to. -/
structure Stands (layer : Layer) (site path : PrimPath) : Prop where
  layer_mem : layer ∈ layers
  site_mem : site ∈ localSites layers path
  authored : (layer.spec? site).isSome = true

/-- The arcs that a prim declares itself, of one kind. -/
def ownArcs (sources : List PrimSpec → List PrimPath) (owner : PrimPath) : List Arc :=
  ((sources (specsOn layers owner)).filter fun source => !source.overlaps owner).map fun source =>
    ⟨owner, source⟩

/-- `ArcStep layers path source` says that an arc of a prim on the way to `path` leads from `path`
to `source`. -/
def ArcStep (path source : PrimPath) : Prop :=
  ∃ arc ∈ arcsFrom layers path, path.relocate? arc.owner arc.source = some source

/-- Each path of the list leads to the next by an arc, and no path is met twice. -/
structure ArcChain (chain : List PrimPath) : Prop where
  linked : chain.IsChain (ArcStep layers)
  distinct : chain.Nodup

variable {layers}

/-! ## Direct opinions and arcs -/

/-- The opinions at a site are the specs there. -/
theorem map_spec_at_site (map : NamespaceMap) (site : PrimPath) :
    (atSite layers map site).map (·.spec) = specsAt layers site := by
  simp [atSite, specsAt, List.map_filterMap, Function.comp_def]

/-- The opinions at a site are what the layers have there. -/
theorem mem_at_site {map : NamespaceMap} {site : PrimPath} {opinion : Opinion} :
    opinion ∈ atSite layers map site ↔ opinion.layer ∈ layers ∧ opinion.site = site ∧
      opinion.layer.spec? site = some opinion.spec ∧ opinion.map = map := by
  obtain ⟨layer, standing, spec, moved⟩ := opinion
  simp only [atSite, List.mem_filterMap, Option.map_eq_some_iff, Opinion.mk.injEq]
  constructor
  · rintro ⟨_, hlayer, _, hspec, rfl, rfl, rfl, rfl⟩
    exact ⟨hlayer, rfl, hspec, rfl⟩
  · rintro ⟨hlayer, rfl, hspec, rfl⟩
    exact ⟨layer, hlayer, spec, hspec, rfl, rfl, rfl, rfl⟩

/-- The opinions that no arc leads to are the specs at the sites of the prim. -/
theorem mem_direct {map : NamespaceMap} {path : PrimPath} {opinion : Opinion} :
    opinion ∈ direct layers map path ↔
      opinion.layer ∈ layers ∧ opinion.site ∈ localSites layers path ∧
        opinion.layer.spec? opinion.site = some opinion.spec ∧ opinion.map = map := by
  simp only [direct, localSites, List.mem_flatMap, mem_at_site]
  constructor
  · rintro ⟨_, hsite, hlayer, rfl, hspec, hmap⟩
    exact ⟨hlayer, hsite, hspec, hmap⟩
  · rintro ⟨hlayer, hsite, hspec, hmap⟩
    exact ⟨_, hsite, hlayer, rfl, hspec, hmap⟩

/-- A layer and a site give an opinion that no arc leads to exactly if the layer's spec stands
there. -/
theorem exists_mem_direct_iff {map : NamespaceMap} {path site : PrimPath} {layer : Layer} :
    (∃ opinion ∈ direct layers map path, opinion.layer = layer ∧ opinion.site = site) ↔
      Stands layers layer site path := by
  constructor
  · rintro ⟨opinion, hmem, rfl, rfl⟩
    obtain ⟨hlayer, hsite, hspec, -⟩ := mem_direct.mp hmem
    exact ⟨hlayer, hsite, by simp [hspec]⟩
  · rintro ⟨hlayer, hsite, hauthored⟩
    obtain ⟨spec, hspec⟩ := Option.isSome_iff_exists.mp hauthored
    exact ⟨⟨layer, site, spec, map⟩, mem_direct.mpr ⟨hlayer, hsite, hspec, rfl⟩, rfl, rfl⟩

/-- The specs of a prim are those of its layers at its sites. -/
theorem mem_specs_on {path : PrimPath} {spec : PrimSpec} :
    spec ∈ specsOn layers path ↔
      ∃ layer ∈ layers, ∃ site ∈ localSites layers path, layer.spec? site = some spec := by
  simp only [specsOn, specsAt, List.mem_flatMap, List.mem_filterMap]
  constructor
  · rintro ⟨site, hsite, layer, hlayer, hspec⟩
    exact ⟨layer, hlayer, site, hsite, hspec⟩
  · rintro ⟨layer, hlayer, site, hsite, hspec⟩
    exact ⟨site, hsite, layer, hlayer, hspec⟩

/-- The arcs from a path are those that the prims on the way declare themselves, references first
and nearest first. -/
theorem arcs_from_eq (path : PrimPath) :
    arcsFrom layers path =
      path.ancestry.reverse.flatMap (ownArcs layers references) ++
        path.ancestry.reverse.flatMap (ownArcs layers specialized) := by
  have hown : ∀ sources : List PrimSpec → List PrimPath,
      (path.ancestry.reverse.map fun owner =>
        (owner, (sites (selectionsOn layers path) owner).flatMap (specsAt layers))).flatMap
          (fun declared => ((sources declared.2).filter fun source =>
            !source.overlaps declared.1).map fun source => (⟨declared.1, source⟩ : Arc)) =
        path.ancestry.reverse.flatMap (ownArcs layers sources) := by
    intro sources
    rw [List.flatMap_map]
    apply List.flatMap_congr
    intro owner hmem
    have hsites := sites_selectionsOn layers (List.mem_reverse.mp hmem)
    simp only [ownArcs, specsOn, localSites, hsites]
  exact congrArg₂ (· ++ ·) (hown references) (hown specialized)

/-- The arcs from a path are the same where the specs of the prims on the way are. -/
theorem arcs_from_congr {others : List Layer} {path : PrimPath}
    (h : ∀ owner ∈ path.ancestry, specsOn layers owner = specsOn others owner) :
    arcsFrom layers path = arcsFrom others path := by
  have harcs : ∀ sources, path.ancestry.reverse.flatMap (ownArcs layers sources) =
      path.ancestry.reverse.flatMap (ownArcs others sources) := by
    intro sources
    apply List.flatMap_congr
    intro owner howner
    rw [ownArcs, ownArcs, h owner (List.mem_reverse.mp howner)]
  rw [arcs_from_eq, arcs_from_eq, harcs, harcs]

/-- An arc from a path belongs to a prim on the way, is authored by a spec of that prim, and leads
neither above nor below it. -/
theorem exists_of_mem_arcs_from {path : PrimPath} {arc : Arc} (h : arc ∈ arcsFrom layers path) :
    arc.owner ∈ path.ancestry ∧ arc.source.overlaps arc.owner = false ∧
      ∃ spec ∈ specsOn layers arc.owner, arc.source ∈ spec.arcTargets := by
  rw [arcs_from_eq, List.mem_append, List.mem_flatMap, List.mem_flatMap] at h
  rcases h with ⟨owner, howner, harc⟩ | ⟨owner, howner, harc⟩
  · simp only [ownArcs, List.mem_map, List.mem_filter, references, mem_addAllNew,
      List.not_mem_nil, false_or, List.mem_flatMap] at harc
    obtain ⟨source, ⟨⟨spec, hspec, hsource⟩, hapart⟩, rfl⟩ := harc
    refine ⟨List.mem_reverse.mp howner, by simpa using hapart, spec, hspec, ?_⟩
    simp [PrimSpec.arcTargets, hsource]
  · simp only [ownArcs, List.mem_map, List.mem_filter, specialized] at harc
    obtain ⟨source, ⟨hsource, hapart⟩, rfl⟩ := harc
    refine ⟨List.mem_reverse.mp howner, by simpa using hapart, ?_⟩
    cases hfirst : (specsOn layers owner).findSome? (·.specializes) with
    | none => simp [hfirst] at hsource
    | some sources =>
        obtain ⟨spec, hspec, hsources⟩ := List.exists_of_findSome?_eq_some hfirst
        refine ⟨spec, hspec, ?_⟩
        simp only [hfirst, Option.getD_some] at hsource
        simp [PrimSpec.arcTargets, hsources, hsource]

/-- A step leads from below the owner of an arc to the same place below its source. -/
theorem ArcStep.exists_append {path source : PrimPath} (h : ArcStep layers path source) :
    ∃ arc ∈ arcsFrom layers path, ∃ rest,
      path = arc.owner.append rest ∧ source = arc.source.append rest := by
  obtain ⟨arc, hmem, hmoved⟩ := h
  exact ⟨arc, hmem, PrimPath.relocate_eq_some_iff.mp hmoved⟩

/-! ## Opinions at the ends of chains -/

theorem ArcChain.singleton (path : PrimPath) : ArcChain layers [path] :=
  ⟨.singleton path, by simp⟩

theorem ArcChain.tail {path source : PrimPath} {rest : List PrimPath}
    (h : ArcChain layers (path :: source :: rest)) : ArcChain layers (source :: rest) :=
  ⟨(List.isChain_cons_cons.mp h.linked).2, (List.nodup_cons.mp h.distinct).2⟩

theorem ArcChain.step {path source : PrimPath} {rest : List PrimPath}
    (h : ArcChain layers (path :: source :: rest)) : ArcStep layers path source :=
  (List.isChain_cons_cons.mp h.linked).1

/-- A chain is continued to the front by a step from a path that it does not meet. -/
theorem ArcChain.cons {path source : PrimPath} {rest : List PrimPath}
    (hstep : ArcStep layers path source) (hchain : ArcChain layers (source :: rest))
    (hnew : path ∉ source :: rest) : ArcChain layers (path :: source :: rest) :=
  ⟨.cons_cons hstep hchain.linked, List.nodup_cons.mpr ⟨hnew, hchain.distinct⟩⟩

/-- A chain that avoids a path and others is continued to the front by a step from the path, and
then avoids the others. -/
theorem ArcChain.cons_of_avoids {path source : PrimPath} {rest visiting : List PrimPath}
    (hstep : ArcStep layers path source) (hchain : ArcChain layers (source :: rest))
    (havoid : ∀ met ∈ source :: rest, met ∉ path :: visiting) (hvisiting : path ∉ visiting) :
    ArcChain layers (path :: source :: rest) ∧
      ∀ met ∈ path :: source :: rest, met ∉ visiting := by
  have hnew : path ∉ source :: rest := fun hmet => havoid path hmet List.mem_cons_self
  refine ⟨.cons hstep hchain hnew, ?_⟩
  intro met hmet
  rcases List.mem_cons.mp hmet with rfl | hmet
  · exact hvisiting
  · exact fun hin => havoid met hmet (List.mem_cons_of_mem _ hin)

/-- What is gathered stands directly on a prim that is not being gathered, or is gathered where an
arc leads. -/
theorem mem_gather_within_succ {budget : Nat} {visiting : List PrimPath} {map : NamespaceMap}
    {path : PrimPath} {opinion : Opinion} :
    opinion ∈ gatherWithin layers (budget + 1) visiting map path ↔
      path ∉ visiting ∧ (opinion ∈ direct layers map path ∨
        ∃ arc ∈ arcsFrom layers path, ∃ source,
          path.relocate? arc.owner arc.source = some source ∧
            opinion ∈ gatherWithin layers budget (path :: visiting)
              (map.nest arc.source arc.owner) source) := by
  by_cases hvisiting : path ∈ visiting
  · simp [gatherWithin, hvisiting]
  · simp only [gatherWithin, hvisiting, if_false, List.mem_append, List.mem_flatMap,
      not_false_eq_true, true_and]
    refine or_congr_right (exists_congr fun arc => and_congr_right fun _ => ?_)
    cases path.relocate? arc.owner arc.source with
    | none => simp
    | some source => simp

/-- An opinion is gathered exactly if it stands at the end of a chain of arcs within the budget
that avoids the paths being gathered. -/
theorem exists_mem_gather_within_iff {budget : Nat} {visiting : List PrimPath}
    {map : NamespaceMap} {path site : PrimPath} {layer : Layer} :
    (∃ opinion ∈ gatherWithin layers budget visiting map path,
        opinion.layer = layer ∧ opinion.site = site) ↔
      ∃ rest, ArcChain layers (path :: rest) ∧ rest.length < budget ∧
        (∀ met ∈ path :: rest, met ∉ visiting) ∧
        Stands layers layer site ((path :: rest).getLast (List.cons_ne_nil path rest)) := by
  -- The budget is the recursion; the visited paths grow and the map is nested along with it.
  induction budget generalizing visiting map path with
  | zero => simp [gatherWithin]
  | succ budget ih =>
      simp only [mem_gather_within_succ]
      constructor
      · rintro ⟨opinion, ⟨hvisiting, hdirect | ⟨arc, harc, source, hmoved, hmem⟩⟩, hat⟩
        · refine ⟨[], .singleton path, Nat.succ_pos budget, by simpa using hvisiting, ?_⟩
          exact exists_mem_direct_iff.mp ⟨opinion, hdirect, hat⟩
        · obtain ⟨rest, hchain, hlength, havoid, hstands⟩ := ih.mp ⟨opinion, hmem, hat⟩
          obtain ⟨hlonger, hall⟩ :=
            ArcChain.cons_of_avoids ⟨arc, harc, hmoved⟩ hchain havoid hvisiting
          exact ⟨source :: rest, hlonger, Nat.succ_lt_succ hlength, hall, hstands⟩
      · rintro ⟨rest, hchain, hlength, havoid, hstands⟩
        have hvisiting : path ∉ visiting := havoid path List.mem_cons_self
        cases rest with
        | nil =>
            obtain ⟨opinion, hmem, hat⟩ := exists_mem_direct_iff.mpr hstands
            exact ⟨opinion, ⟨hvisiting, .inl hmem⟩, hat⟩
        | cons source rest =>
            obtain ⟨arc, harc, hmoved⟩ := hchain.step
            -- The rest of the chain may not come back to `path`, which is now being gathered.
            have hapart : ∀ met ∈ source :: rest, met ∉ path :: visiting := by
              intro met hmet hin
              rcases List.mem_cons.mp hin with rfl | hin
              · exact (List.nodup_cons.mp hchain.distinct).1 hmet
              · exact havoid met (List.mem_cons_of_mem _ hmet) hin
            obtain ⟨opinion, hmem, hat⟩ : ∃ opinion ∈ gatherWithin layers budget
                (path :: visiting) (map.nest arc.source arc.owner) source,
                  opinion.layer = layer ∧ opinion.site = site :=
              ih.mpr ⟨rest, hchain.tail, Nat.lt_of_succ_lt_succ hlength, hapart, hstands⟩
            exact ⟨opinion, ⟨hvisiting, .inr ⟨arc, harc, source, hmoved, hmem⟩⟩, hat⟩

/-- A prim has an opinion exactly if some layer's spec stands at the end of a chain of arcs. -/
theorem gather_ne_nil_iff {path : PrimPath} :
    gather layers path ≠ [] ↔
      ∃ rest layer site, ArcChain layers (path :: rest) ∧ rest.length < maxArcDepth ∧
        Stands layers layer site ((path :: rest).getLast (List.cons_ne_nil path rest)) := by
  constructor
  · intro hne
    obtain ⟨opinion, hmem⟩ := List.exists_mem_of_ne_nil _ hne
    obtain ⟨rest, hchain, hlength, -, hstands⟩ :=
      exists_mem_gather_within_iff.mp ⟨opinion, hmem, rfl, rfl⟩
    exact ⟨rest, _, _, hchain, hlength, hstands⟩
  · rintro ⟨rest, layer, site, hchain, hlength, hstands⟩
    obtain ⟨opinion, hmem, -⟩ : ∃ opinion ∈ gather layers path,
        opinion.layer = layer ∧ opinion.site = site :=
      exists_mem_gather_within_iff.mpr ⟨rest, hchain, hlength, by simp, hstands⟩
    exact List.ne_nil_of_mem hmem

/-- What holds of all direct opinions holds of all that is gathered. -/
theorem forall_mem_gather_within {holds : Opinion → Prop}
    (hdirect : ∀ map path, ∀ opinion ∈ direct layers map path, holds opinion)
    {budget : Nat} {visiting : List PrimPath} {map : NamespaceMap} {path : PrimPath}
    {opinion : Opinion} (h : opinion ∈ gatherWithin layers budget visiting map path) :
    holds opinion := by
  induction budget generalizing visiting map path with
  | zero => simp [gatherWithin] at h
  | succ budget ih =>
      obtain ⟨-, h | ⟨arc, -, source, -, h⟩⟩ := mem_gather_within_succ.mp h
      · exact hdirect map path opinion h
      · exact ih h

/-- Every opinion on a prim is a spec of a layer. -/
theorem authored_of_mem_gather {path : PrimPath} {opinion : Opinion}
    (h : opinion ∈ gather layers path) :
    opinion.layer ∈ layers ∧ opinion.layer.spec? opinion.site = some opinion.spec := by
  let authored : Opinion → Prop := fun opinion =>
    opinion.layer ∈ layers ∧ opinion.layer.spec? opinion.site = some opinion.spec
  have hdirect : ∀ map path, ∀ opinion ∈ direct layers map path, authored opinion := by
    intro map path opinion hmem
    obtain ⟨hlayer, -, hspec, -⟩ := mem_direct.mp hmem
    exact ⟨hlayer, hspec⟩
  exact forall_mem_gather_within hdirect h

/-- The opinions at the path of a prim itself are the strongest. -/
theorem exists_gather_eq_append (layers : List Layer) (path : PrimPath) :
    ∃ rest, gather layers path = atSite layers .identity path ++ rest := by
  obtain ⟨budget, hbudget⟩ : ∃ budget, maxArcDepth = budget + 1 :=
    Nat.exists_eq_succ_of_ne_zero (by decide)
  rw [gather, hbudget, gatherWithin, if_neg List.not_mem_nil, direct, sites, List.flatMap_cons,
    List.append_assoc]
  exact ⟨_, rfl⟩

/-- What the first layer says at the path of a prim itself is the strongest opinion on it. -/
theorem gather_eq_cons_of_first {first : Layer} {path : PrimPath} {spec : PrimSpec}
    (h : first.spec? path = some spec) (others : List Layer) :
    ∃ weaker, gather (first :: others) path = ⟨first, path, spec, .identity⟩ :: weaker := by
  obtain ⟨rest, hgather⟩ := exists_gather_eq_append (first :: others) path
  rw [hgather, atSite, List.filterMap_cons_some (by rw [h, Option.map_some])]
  exact ⟨_, rfl⟩

/-- Every spec at a site of a prim contributes to it. -/
theorem exists_mem_gather_of_local_site {path site : PrimPath}
    (hsite : site ∈ localSites layers path) {layer : Layer} (hlayer : layer ∈ layers)
    {spec : PrimSpec} (hspec : layer.spec? site = some spec) :
    ∃ opinion ∈ gather layers path,
      opinion.layer = layer ∧ opinion.site = site ∧ opinion.spec = spec := by
  have hstands : Stands layers layer site path :=
    ⟨hlayer, hsite, Option.isSome_of_eq_some hspec⟩
  obtain ⟨opinion, hopinion, rfl, rfl⟩ : ∃ opinion ∈ gather layers path,
      opinion.layer = layer ∧ opinion.site = site :=
    exists_mem_gather_within_iff.mpr ⟨[], .singleton path, by decide, by simp, hstands⟩
  obtain ⟨-, hauthored⟩ := authored_of_mem_gather hopinion
  exact ⟨opinion, hopinion, rfl, rfl, Option.some.inj (hauthored.symm.trans hspec)⟩

/-! ## What gathering depends on -/

/-- The same is gathered on a path if the same is gathered wherever an arc leads. -/
theorem gather_within_step {budget limit : Nat} {visiting others : List PrimPath}
    {map : NamespaceMap} {path : PrimPath} (hpath : path ∈ visiting ↔ path ∈ others)
    (h : path ∉ visiting → ∀ arc ∈ arcsFrom layers path, ∀ source,
      path.relocate? arc.owner arc.source = some source →
        gatherWithin layers budget (path :: visiting) (map.nest arc.source arc.owner) source =
          gatherWithin layers limit (path :: others) (map.nest arc.source arc.owner) source) :
    gatherWithin layers (budget + 1) visiting map path =
      gatherWithin layers (limit + 1) others map path := by
  rw [gatherWithin, gatherWithin]
  by_cases hvisiting : path ∈ visiting
  · rw [if_pos hvisiting, if_pos (hpath.mp hvisiting)]
  · rw [if_neg hvisiting, if_neg (fun hin => hvisiting (hpath.mpr hin))]
    congr 1
    apply List.flatMap_congr
    intro arc harc
    cases hmoved : path.relocate? arc.owner arc.source with
    | none => rfl
    | some source => exact h hvisiting arc harc source hmoved

/-- Only those paths being gathered matter that arcs lead to. -/
theorem gather_within_congr {budget : Nat} {visiting others : List PrimPath}
    {map : NamespaceMap} {path : PrimPath}
    (h : ∀ met, Relation.ReflTransGen (ArcStep layers) path met →
      (met ∈ visiting ↔ met ∈ others)) :
    gatherWithin layers budget visiting map path = gatherWithin layers budget others map path := by
  induction budget generalizing visiting others map path with
  | zero => rfl
  | succ budget ih =>
      apply gather_within_step (h path .refl)
      intro _ arc harc source hmoved
      apply ih
      intro met hreach
      have hmet := h met (.head ⟨arc, harc, hmoved⟩ hreach)
      simp [hmet]

/-- One more path in the budget changes nothing when all chains fit the budget. -/
theorem gather_within_succ {budget : Nat} {visiting : List PrimPath} {map : NamespaceMap}
    {path : PrimPath}
    (h : ∀ rest, ArcChain layers (path :: rest) → (∀ met ∈ path :: rest, met ∉ visiting) →
      rest.length < budget) :
    gatherWithin layers (budget + 1) visiting map path =
      gatherWithin layers budget visiting map path := by
  induction budget generalizing visiting map path with
  | zero =>
      by_cases hvisiting : path ∈ visiting
      · simp [gatherWithin, hvisiting]
      · exact absurd (h [] (.singleton path) (by simpa using hvisiting)) (Nat.lt_irrefl 0)
  | succ budget ih =>
      apply gather_within_step Iff.rfl
      intro hvisiting arc harc source hmoved
      -- A chain from the source is one from `path` when `path` is put in front of it.
      apply ih
      intro rest hchain havoid
      obtain ⟨hlonger, hall⟩ :=
        ArcChain.cons_of_avoids ⟨arc, harc, hmoved⟩ hchain havoid hvisiting
      exact Nat.lt_of_succ_lt_succ (h (source :: rest) hlonger hall)

end Opinion

/-- The map that moves paths as `map` does, and then from below a source to below a target. -/
def NamespaceMap.followedBy (map : NamespaceMap) (source target : PrimPath) : NamespaceMap :=
  ⟨map.pairs ++ [(source, target)]⟩

/-- The last pair of a map moves what the pairs before it give. -/
theorem NamespaceMap.apply_prim_followed_by (map : NamespaceMap) (source target prim : PrimPath) :
    (map.followedBy source target).applyPrim prim =
      (map.applyPrim prim).moved source target := by
  simp [followedBy, applyPrim, PrimPath.moved]

namespace Opinion

/-- The opinion with its names moved further, from below a source to below a target. -/
def followedBy (opinion : Opinion) (source target : PrimPath) : Opinion :=
  { opinion with map := opinion.map.followedBy source target }

variable {layers : List Layer}

/-- A map that moves further moves the direct opinions further. -/
theorem direct_followed_by (map : NamespaceMap) (source target path : PrimPath) :
    direct layers (map.followedBy source target) path =
      (direct layers map path).map fun opinion => opinion.followedBy source target := by
  simp only [direct, atSite, List.map_flatMap, List.map_filterMap, Option.map_map]
  rfl

/-- A map that moves further moves all that is gathered further. -/
theorem gather_within_followed_by (budget : Nat) (visiting : List PrimPath) (map : NamespaceMap)
    (source target path : PrimPath) :
    gatherWithin layers budget visiting (map.followedBy source target) path =
      (gatherWithin layers budget visiting map path).map
        fun opinion => opinion.followedBy source target := by
  induction budget generalizing visiting map path with
  | zero => rfl
  | succ budget ih =>
      by_cases hvisiting : path ∈ visiting
      · simp [gatherWithin, hvisiting]
      · simp only [gatherWithin, hvisiting, if_false, direct_followed_by, List.map_append,
          List.map_flatMap]
        congr 1
        apply List.flatMap_congr
        intro arc _
        cases path.relocate? arc.owner arc.source with
        | none => rfl
        | some moved => exact ih (path :: visiting) (map.nest arc.source arc.owner) moved

/-- A prim from which a single arc leads has its direct opinions and, moved into its own names,
those of the place that the arc leads to: provided that no arcs lead from there back to the prim,
and that no chain from there is too long when the prim is put in front of it. -/
theorem gather_of_single_arc {owner source : PrimPath} {rest : List Segment}
    (harcs : arcsFrom layers (owner.append rest) = [⟨owner, source⟩])
    (hback : ¬ Relation.ReflTransGen (ArcStep layers) (source.append rest) (owner.append rest))
    (hlength : ∀ chain, ArcChain layers (source.append rest :: chain) →
      chain.length + 1 < maxArcDepth) :
    gather layers (owner.append rest) =
      direct layers .identity (owner.append rest) ++
        (gather layers (source.append rest)).map
          fun opinion => opinion.followedBy source owner := by
  obtain ⟨budget, hbudget⟩ : ∃ budget, maxArcDepth = budget + 1 :=
    Nat.exists_eq_succ_of_ne_zero (by decide)
  -- The prim itself is being gathered then, which does not matter because nothing leads back.
  have hvisiting : gatherWithin layers budget [owner.append rest]
      (.followedBy .identity source owner) (source.append rest) =
        gatherWithin layers budget [] (.followedBy .identity source owner)
          (source.append rest) := by
    apply gather_within_congr
    intro met hreach
    have hne : met ≠ owner.append rest := by
      rintro rfl
      exact hback hreach
    simp [hne]
  -- One path of the budget is spent, which does not matter because no chain needs it.
  have hsource : gather layers (source.append rest) =
      gatherWithin layers budget [] .identity (source.append rest) := by
    rw [gather, hbudget]
    apply gather_within_succ
    intro chain hchain _
    have hshort := hlength chain hchain
    omega
  have hopen : gather layers (owner.append rest) =
      direct layers .identity (owner.append rest) ++
        gatherWithin layers budget [owner.append rest] (.followedBy .identity source owner)
          (source.append rest) := by
    rw [gather, hbudget, gatherWithin]
    simp only [List.not_mem_nil, if_false, harcs, List.flatMap_cons, List.flatMap_nil,
      List.append_nil, PrimPath.relocate_append]
    rfl
  rw [hopen, hvisiting, gather_within_followed_by, hsource]

end Opinion

end LayeredShading
