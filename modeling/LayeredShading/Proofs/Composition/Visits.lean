import LayeredShading.Proofs.Composition.ArcChain

/-!
# Visits

Gathering goes along arcs from prim to prim. `visits` lists the prims that it comes to, each with
the map that is in force there, and the opinions on a prim are the direct ones of its visits in
order (`gather_within_eq_visits`). A map may have many pairs, of prims and of prims above them. The
pair of the last arc takes what is below a visited prim back to where the arc led from, whichever
prim declares the arc, and from there the pairs before it lead on (`NamespaceMap.Moves.nest`). So
all of them together bring whatever is below a visited prim to the same place below the prim that
is composed (`opinions_sent_home`).
-/

namespace LayeredShading

namespace NamespaceMap

variable {map : NamespaceMap} {owner source home : PrimPath} {rest : List Segment}

/-- The map moves what is below one prim to the same place below another. -/
def Moves (map : NamespaceMap) (source home : PrimPath) : Prop :=
  ∀ below, map.applyPrim (source.append below) = home.append below

theorem moves_identity (path : PrimPath) : identity.Moves path path := fun _ => rfl

/-- A nested map moves as its new pair does, and then as before. -/
theorem apply_prim_nest (map : NamespaceMap) (source target prim : PrimPath) :
    (map.nest source target).applyPrim prim = map.applyPrim (prim.moved source target) := rfl

/-- If a map brings home what is below a prim, then nested for an arc it brings home what is below
the prim that the arc leads to. -/
theorem Moves.nest (h : map.Moves (owner.append rest) home) :
    (map.nest source owner).Moves (source.append rest) home := by
  intro below
  calc (map.nest source owner).applyPrim ((source.append rest).append below)
      = map.applyPrim (((source.append rest).append below).moved source owner) :=
        apply_prim_nest _ _ _ _
    _ = map.applyPrim ((owner.append rest).append below) := by
        rw [PrimPath.append_append, PrimPath.moved_append, PrimPath.append_append]
    _ = home.append below := h below

end NamespaceMap

namespace Opinion

/-- A prim that gathering comes to, and the map that is in force there. -/
structure Visit where
  path : PrimPath
  map : NamespaceMap
  deriving DecidableEq

section Within

variable (layers : List Layer)

/-- The prims that gathering comes to when at most `budget` paths may be gathered within each other
and `visiting` are being gathered. -/
def visitsWithin : Nat → List PrimPath → NamespaceMap → PrimPath → List Visit
  | 0, _, _, _ => []
  | budget + 1, visiting, map, path =>
    if path ∈ visiting then []
    else
      ⟨path, map⟩ :: (arcsFrom layers path).flatMap fun arc =>
        match path.relocate? arc.owner arc.source with
        | none => []
        | some source =>
          visitsWithin budget (path :: visiting) (map.nest arc.source arc.owner) source

/-- The prims that gathering the opinions on a prim comes to. -/
def visits (path : PrimPath) : List Visit := visitsWithin layers maxArcDepth [] .identity path

/-- The opinions that a visit gives are the direct ones of its prim. -/
def Visit.opinions (visit : Visit) : List Opinion := direct layers visit.map visit.path

end Within

variable {layers : List Layer}

/-- What is gathered is what the visits give, one after the other. -/
theorem gather_within_eq_visits (budget : Nat) (visiting : List PrimPath) (map : NamespaceMap)
    (path : PrimPath) :
    gatherWithin layers budget visiting map path =
      (visitsWithin layers budget visiting map path).flatMap (Visit.opinions layers) := by
  induction budget generalizing visiting map path with
  | zero => rfl
  | succ budget ih =>
      rw [gatherWithin, visitsWithin]
      split
      next => rfl
      next =>
        rw [List.flatMap_cons, List.flatMap_assoc]
        congr 1
        apply List.flatMap_congr
        intro arc _
        cases path.relocate? arc.owner arc.source with
        | none => rfl
        | some source => exact ih _ _ _

/-- What holds where gathering starts, and is passed on along arcs, holds at every visit. -/
theorem forall_mem_visits_within {holds : PrimPath → NamespaceMap → Prop}
    (hstep : ∀ path map arc source, arc ∈ arcsFrom layers path →
      path.relocate? arc.owner arc.source = some source → holds path map →
        holds source (map.nest arc.source arc.owner))
    {budget : Nat} {visiting : List PrimPath} {map : NamespaceMap} {path : PrimPath}
    (hstart : holds path map) :
    ∀ visit ∈ visitsWithin layers budget visiting map path, holds visit.path visit.map := by
  induction budget generalizing visiting map path with
  | zero => exact fun _ hvisit => absurd hvisit List.not_mem_nil
  | succ budget ih =>
      intro visit hvisit
      rw [visitsWithin] at hvisit
      split at hvisit
      next => cases hvisit
      next =>
        rcases List.mem_cons.mp hvisit with rfl | hvisit
        · exact hstart
        obtain ⟨arc, harc, hvisit⟩ := List.mem_flatMap.mp hvisit
        cases hmoved : path.relocate? arc.owner arc.source with
        | none =>
            rw [hmoved] at hvisit
            cases hvisit
        | some source =>
            rw [hmoved] at hvisit
            exact ih (hstep path map arc source harc hmoved hstart) visit hvisit

/-- Opinions are sent home. The opinions on a prim are those that the visits of gathering give, in
order. Arcs lead from the prim to each visited one, where the opinions stand at its own path or in
variants selected there; and whatever arcs these are, the maps of the opinions move every property
at or below the visited prim to the same place at or below the prim. -/
theorem opinions_sent_home (layers : List Layer) (path : PrimPath) :
    gather layers path = (visits layers path).flatMap (Visit.opinions layers) ∧
    ∀ visit ∈ visits layers path,
      Relation.ReflTransGen (ArcStep layers) path visit.path ∧
      ∀ opinion ∈ visit.opinions layers, opinion.site ∈ localSites layers visit.path ∧
        ∀ (below : List Segment) (name : String),
          opinion.map.apply ⟨visit.path.append below, name⟩ = ⟨path.append below, name⟩ := by
  refine ⟨gather_within_eq_visits _ _ _ _, fun visit hvisit => ?_⟩
  have hstep : ∀ between (map : NamespaceMap) (arc : Arc) source, arc ∈ arcsFrom layers between →
      between.relocate? arc.owner arc.source = some source →
      Relation.ReflTransGen (ArcStep layers) path between ∧ map.Moves between path →
      Relation.ReflTransGen (ArcStep layers) path source ∧
        (map.nest arc.source arc.owner).Moves source path := by
    intro between map arc source harc hmoved hbetween
    refine ⟨hbetween.1.tail ⟨arc, harc, hmoved⟩, ?_⟩
    obtain ⟨rest, rfl, rfl⟩ := PrimPath.relocate_eq_some_iff.mp hmoved
    exact hbetween.2.nest
  obtain ⟨hreached, hmoves⟩ := forall_mem_visits_within hstep
    ⟨.refl, NamespaceMap.moves_identity path⟩ visit hvisit
  refine ⟨hreached, fun opinion hopinion => ?_⟩
  obtain ⟨-, hsite, -, hmap⟩ := mem_direct.mp hopinion
  refine ⟨hsite, fun below name => ?_⟩
  rw [hmap]
  exact congrArg (PropertyPath.mk · name) (hmoves below)

/-- A look that refers to a base; a part of the base specializes a kit, which has a finish selected
and says something of a part of its own there. -/
def partFromKit : List Layer := [⟨"root", .ofList [
  (⟨[.plain "Look"]⟩, { PrimSpec.blank .define with references := [⟨[.plain "Base"]⟩] }),
  (⟨[.plain "Base", .plain "Bolt"]⟩, { PrimSpec.blank .define with
    specializes := some [⟨[.plain "Kit", .plain "Bolt"]⟩] }),
  (⟨[.plain "Kit", .plain "Bolt"]⟩, { PrimSpec.blank .define with
    variantSets := [⟨"finish", ["matt"]⟩]
    variantSelection := .ofList [("finish", "matt")] }),
  (⟨[.plain "Kit", ⟨"Bolt", [⟨"finish", "matt"⟩]⟩, .plain "Head"]⟩, .blank .define)]⟩]

/-- Gathering for the head of the part comes to the kit by way of the base. The opinion that stands
in the finish there names properties of the kit, which are sent home to the look. -/
theorem head_sent_home :
    let head : PrimPath := ⟨[.plain "Look", .plain "Bolt", .plain "Head"]⟩
    let kit : PrimPath := ⟨[.plain "Kit", .plain "Bolt", .plain "Head"]⟩
    let map : NamespaceMap := ⟨[
      (⟨[.plain "Kit", .plain "Bolt"]⟩, ⟨[.plain "Base", .plain "Bolt"]⟩),
      (⟨[.plain "Base"]⟩, ⟨[.plain "Look"]⟩)]⟩
    ⟨kit, map⟩ ∈ visits partFromKit head ∧
      ∃ opinion ∈ Visit.opinions partFromKit ⟨kit, map⟩,
        opinion.site = ⟨[.plain "Kit", ⟨"Bolt", [⟨"finish", "matt"⟩]⟩, .plain "Head"]⟩ ∧
        opinion.map.apply ⟨kit.append [.plain "slot"], "width"⟩ =
          ⟨head.append [.plain "slot"], "width"⟩ := by
  intro head kit map
  have hvisit : (⟨kit, map⟩ : Visit) ∈ visits partFromKit head := by decide
  obtain ⟨opinion, hopinion, hsite⟩ : ∃ opinion ∈ Visit.opinions partFromKit ⟨kit, map⟩,
      opinion.site = ⟨[.plain "Kit", ⟨"Bolt", [⟨"finish", "matt"⟩]⟩, .plain "Head"]⟩ := by decide
  obtain ⟨-, hhome⟩ := (opinions_sent_home partFromKit head).2 _ hvisit
  exact ⟨hvisit, opinion, hopinion, hsite, (hhome opinion hopinion).2 [.plain "slot"] "width"⟩

end Opinion

end LayeredShading
