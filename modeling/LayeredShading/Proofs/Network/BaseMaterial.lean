import LayeredShading.Proofs.Composition.Overlay
import LayeredShading.Proofs.Reachability
import LayeredShading.Proofs.Stage.Authored

/-!
# Cycles of base materials

The prims that a prim specializes in the composed scene are authored by some spec, so the search of
`Material.lineage` has visits enough and `wouldCycle` is exact (`would_cycle_iff`): it holds of a
base exactly if what the base specializes, directly or indirectly, comes to the material or to a
prim above or below it. A base that passes this check closes no cycle as long as no other base
material appears with it (`Material.no_cycle_of_run`). Others may appear, and then there can be
a cycle: a base set on a prim also reaches the prims below it (`Material.bases_below_cycle`).
-/

namespace LayeredShading

namespace Stage

/-- A prim specializes another in the composed scene. -/
def Specializes (stage : Stage) (prim source : PrimPath) : Prop :=
  ∃ composed, stage.prim? prim = some composed ∧ source ∈ composed.specializes

/-- The prims that specs specialize, over all layers. -/
def specializedTargets (layers : List Layer) : List PrimPath :=
  layers.flatMap fun layer => layer.specs.entries.flatMap fun entry => entry.2.specializes.getD []

/-- What a composed prim specializes is authored by a spec at the end of a chain of arcs. -/
theorem Specializes.exists_chain {stage : Stage} {prim source : PrimPath}
    (h : stage.Specializes prim source) :
    prim.hasChoices = false ∧ ∃ rest, Opinion.ArcChain stage.layers (prim :: rest) ∧
      ∃ layer ∈ stage.layers, ∃ entry ∈ layer.specs.entries,
        entry.1 ∈ Opinion.localSites stage.layers
          ((prim :: rest).getLast (List.cons_ne_nil prim rest)) ∧
        source ∈ entry.2.specializes.getD [] := by
  obtain ⟨composed, hprim, hsource⟩ := h
  have hfirst : composed.specializes = ((Opinion.gather stage.layers prim).findSome?
      fun opinion => opinion.spec.specializes).getD [] := by
    rw [compose_eq_some hprim]
    exact congrArg (Option.getD · [])
      (Opinion.overlay_all_open (·.specializes) rfl (fun _ _ => rfl) _)
  rw [hfirst] at hsource
  cases hfound : (Opinion.gather stage.layers prim).findSome?
      fun opinion => opinion.spec.specializes with
  | none => simp [hfound] at hsource
  | some sources =>
      rw [hfound, Option.getD_some] at hsource
      obtain ⟨opinion, hopinion, hspecializes⟩ := List.exists_of_findSome?_eq_some hfound
      obtain ⟨hlayer, hspec⟩ := Opinion.authored_of_mem_gather hopinion
      obtain ⟨rest, hchain, -, -, hstands⟩ :=
        Opinion.exists_mem_gather_within_iff.mp ⟨opinion, hopinion, rfl, rfl⟩
      refine ⟨(compose_is_some_iff.mp (Option.isSome_of_eq_some hprim)).2.1, rest, hchain,
        opinion.layer, hlayer, (opinion.site, opinion.spec),
        SortedMap.get?_eq_some_iff.mp hspec, hstands.site_mem, ?_⟩
      simpa [hspecializes] using hsource

theorem Specializes.mem_targets {stage : Stage} {prim source : PrimPath}
    (h : stage.Specializes prim source) : source ∈ specializedTargets stage.layers := by
  obtain ⟨-, _, -, layer, hlayer, entry, hentry, -, hsource⟩ := h.exists_chain
  exact List.mem_flatMap.mpr ⟨layer, hlayer, List.mem_flatMap.mpr ⟨entry, hentry, hsource⟩⟩

/-- The prims that a prim specializes in the composed scene. -/
def specialized (stage : Stage) (prim : PrimPath) : List PrimPath :=
  ((stage.prim? prim).map (·.specializes)).getD []

theorem mem_specialized_iff {stage : Stage} {prim source : PrimPath} :
    source ∈ stage.specialized prim ↔ stage.Specializes prim source := by
  unfold specialized Specializes
  cases hprim : stage.prim? prim <;> simp

theorem specialized_subset {stage : Stage} (prim : PrimPath) :
    stage.specialized prim ⊆ specializedTargets stage.layers :=
  fun _ hsource => (mem_specialized_iff.mp hsource).mem_targets

end Stage

namespace Material

variable {stage : Stage}

/-! ## The check for cycles -/

theorem lineage_eq_reachable (prim : PrimPath) :
    lineage stage prim =
      reachable stage.specialized (specializedCount stage.layers + 1) [prim] := rfl

/-- The lineage of a prim is what it specializes, directly or indirectly, and the prim itself. -/
theorem mem_lineage_iff {prim found : PrimPath} :
    found ∈ lineage stage prim ↔ Relation.ReflTransGen stage.Specializes prim found := by
  have hcount : (prim :: Stage.specializedTargets stage.layers).length ≤
      specializedCount stage.layers + 1 := Nat.le_refl _
  have hnext : ∀ point other, other ∈ stage.specialized point ↔ stage.Specializes point other :=
    fun _ _ => Stage.mem_specialized_iff
  rw [lineage_eq_reachable,
    mem_reachable_iff hnext (prim :: Stage.specializedTargets stage.layers) (by simp)
      (fun point _ => List.subset_cons_of_subset prim (Stage.specialized_subset point)) hcount]
  simp

/-- The search for the lineage of a prim ends by itself: further visits would find nothing more. -/
theorem lineage_stable (prim : PrimPath) (more : Nat) :
    reachable stage.specialized (specializedCount stage.layers + 1 + more) [prim] =
      lineage stage prim :=
  reachable_stable (prim :: Stage.specializedTargets stage.layers) (by simp)
    (fun point _ => List.subset_cons_of_subset prim (Stage.specialized_subset point))
    (Nat.le_refl _) more

/-- A base would close a cycle exactly if what it specializes comes to the material or to a prim
above or below it. -/
theorem would_cycle_iff {material base : PrimPath} :
    wouldCycle stage material base = true ↔
      ∃ prim, Relation.ReflTransGen stage.Specializes base prim ∧
        prim.overlaps material = true := by
  simp only [wouldCycle, List.any_eq_true, mem_lineage_iff]

/-- A base is set only if it would not close a cycle. -/
theorem would_cycle_of_run_set_base {material base : PrimPath} {after : Stage}
    (h : (setBase material base).run stage = .ok () after) :
    wouldCycle stage material base = false := by
  rw [setBase, Edit.run_bind_eq_ok] at h
  obtain ⟨_, _, hget, h⟩ := h
  obtain ⟨rfl, rfl⟩ := Edit.run_get_eq_ok.mp hget
  by_contra hcycle
  rw [Bool.not_eq_false] at hcycle
  simp only [hcycle, if_true, Edit.run_bind_eq_ok] at h
  obtain ⟨_, _, hthrow, -⟩ := h
  exact Edit.run_throw_ne_ok hthrow

/-! ## Base materials along a run -/

/-- A material has a base material. -/
def HasBase (stage : Stage) (material base : PrimPath) : Prop := base? stage material = some base

/-- The base material is the first specialized prim, if that is a material. -/
theorem has_base_iff {material base : PrimPath} :
    HasBase stage material base ↔ ∃ composed, stage.prim? material = some composed ∧
      composed.specializes.head? = some base ∧ isMaterial stage base = true := by
  simp only [HasBase, base?, Option.bind_eq_bind, Option.bind_eq_some_iff]
  refine exists_congr fun composed => and_congr_right fun _ => ?_
  constructor
  · rintro ⟨source, hhead, hbase⟩
    split at hbase
    next hmaterial =>
      cases hbase
      exact ⟨hhead, hmaterial⟩
    next => cases hbase
  · rintro ⟨hhead, hmaterial⟩
    exact ⟨base, hhead, if_pos hmaterial⟩

/-- A base material is specialized. -/
theorem HasBase.specializes {material base : PrimPath} (h : HasBase stage material base) :
    stage.Specializes material base := by
  obtain ⟨composed, hprim, hhead, -⟩ := has_base_iff.mp h
  exact ⟨composed, hprim, List.mem_of_head? hhead⟩

/-- A base material is a material. -/
theorem HasBase.is_material {material base : PrimPath} (h : HasBase stage material base) :
    isMaterial stage base = true := by
  obtain ⟨-, -, -, hmaterial⟩ := has_base_iff.mp h
  exact hmaterial

/-- No material comes back to itself along base materials. -/
def BasesAcyclic (stage : Stage) : Prop :=
  ∀ material, ¬ Relation.TransGen (HasBase stage) material material

/-- A path along a relation or one more step either does without that step, or leads to its start
and on from its end. -/
theorem trans_gen_of_step {α : Type} {related : α → α → Prop} {start finish first second : α}
    (h : Relation.TransGen (fun one two => related one two ∨ one = start ∧ two = finish)
      first second) :
    Relation.TransGen related first second ∨
      Relation.ReflTransGen related first start ∧ Relation.ReflTransGen related finish second := by
  induction h with
  | single hstep =>
      rcases hstep with hstep | ⟨rfl, rfl⟩
      · exact .inl (.single hstep)
      · exact .inr ⟨.refl, .refl⟩
  | tail _ hstep ih =>
      rcases hstep with hstep | ⟨rfl, rfl⟩
      · exact ih.imp (.tail · hstep) (And.imp_right (.tail · hstep))
      · rcases ih with hpath | ⟨hpath, -⟩
        · exact .inr ⟨hpath.to_reflTransGen, .refl⟩
        · exact .inr ⟨hpath, .refl⟩

/-- Base materials stay without a cycle when one is set and no other appears. -/
theorem BasesAcyclic.of_set_base (h : BasesAcyclic stage) {material base : PrimPath}
    {after : Stage} (hset : (setBase material base).run stage = .ok () after)
    (honly : ∀ first second, HasBase after first second →
      HasBase stage first second ∨ first = material ∧ second = base) : BasesAcyclic after := by
  intro start hcycle
  have hleads : Relation.ReflTransGen (HasBase stage) base material := by
    rcases trans_gen_of_step (Relation.TransGen.mono honly _ _ hcycle) with hold | ⟨hto, hfrom⟩
    · exact absurd hold (h start)
    · exact hfrom.trans hto
  have hwould : wouldCycle stage material base = true := would_cycle_iff.mpr
    ⟨material, Relation.ReflTransGen.mono (fun _ _ => HasBase.specializes) _ _ hleads,
      by simp [PrimPath.overlaps]⟩
  simp [would_cycle_of_run_set_base hset] at hwould

/-- A step of authoring in which no base material appears but one that is set. -/
inductive BaseStep : Stage → Stage → Prop where
  | set {stage after : Stage} {material base : PrimPath} :
      (setBase material base).run stage = .ok () after →
      (∀ first second, HasBase after first second →
        HasBase stage first second ∨ first = material ∧ second = base) → BaseStep stage after
  | other {stage : Stage} {α : Type} {program : Edit α} : program.Authored →
      (∀ first second, HasBase (stage.after program) first second →
        HasBase stage first second) → BaseStep stage (stage.after program)

theorem BasesAcyclic.step {after : Stage} (h : BasesAcyclic stage) (hstep : BaseStep stage after) :
    BasesAcyclic after := by
  cases hstep with
  | set hset honly => exact h.of_set_base hset honly
  | other _ hkept =>
      intro material hcycle
      exact h material (Relation.TransGen.mono hkept _ _ hcycle)

/-- Whatever is authored on a blank stage, base materials have no cycle if each of them appears
when it is set: the check for cycles is exact for the scene of the moment, but sees no base material
that appears later or elsewhere. -/
theorem no_cycle_of_run (hrun : Relation.ReflTransGen BaseStep .blank stage) :
    BasesAcyclic stage := by
  induction hrun with
  | refl =>
      intro material hcycle
      -- nothing composes on a blank stage
      obtain ⟨base, hfirst, -⟩ := Relation.TransGen.head'_iff.mp hcycle
      have hnone : base ∈ ([] : List PrimPath) := hfirst.specializes.mem_targets
      cases hnone
  | tail _ hstep ih => exact ih.step hstep

/-- Two materials, one of which is made the base of the other. -/
def pointed : Stage :=
  ((Stage.blank.after (define ⟨[.plain "A"]⟩)).after (define ⟨[.plain "B"]⟩)).after
    (setBase ⟨[.plain "B"]⟩ ⟨[.plain "A"]⟩)

/-- No other base material appears there than the one that is set, and it closes no cycle. -/
theorem pointed_has_no_cycle :
    HasBase pointed ⟨[.plain "B"]⟩ ⟨[.plain "A"]⟩ ∧ BasesAcyclic pointed := by
  have hranked : Opinion.Ranked pointed.layers fun name => if name = "B" then 1 else 0 := by
    unfold Opinion.Ranked
    decide
  have hauthors : ∀ layer ∈ pointed.layers, ∀ entry ∈ layer.specs.entries,
      ∀ source ∈ entry.2.specializes.getD [],
        entry.1 = ⟨[.plain "B"]⟩ ∧ source = ⟨[.plain "A"]⟩ := by decide
  have honly : ∀ first second, HasBase pointed first second →
      first = ⟨[.plain "B"]⟩ ∧ second = ⟨[.plain "A"]⟩ := by
    intro first second hbase
    obtain ⟨hplain, rest, hchain, layer, hlayer, entry, hentry, hsite, hsource⟩ :=
      hbase.specializes.exists_chain
    obtain ⟨hprim, rfl⟩ := hauthors layer hlayer entry hentry second hsource
    refine ⟨?_, rfl⟩
    -- The arc leads to a prim of lower rank, so the chain from `first` to `/B` has no step.
    have hstrip := Opinion.strip_of_mem_local_sites hsite
    have htop : ((first :: rest).getLast (List.cons_ne_nil first rest)).topName = "B" := by
      rw [← PrimPath.top_name_strip, ← hstrip, hprim]
      rfl
    have hrank := hchain.rank_last_le hranked
    rw [htop] at hrank
    have hempty : rest = [] := by
      have hle : (if first.topName = "B" then 1 else 0) ≤ 1 := by split <;> omega
      exact List.length_eq_zero_iff.mp (by simp only [if_true] at hrank; omega)
    subst hempty
    rw [List.getLast_singleton, PrimPath.strip_eq_self hplain, hprim] at hstrip
    exact hstrip.symm
  have hnone : ∀ {stage : Stage}, Stage.specializedTargets stage.layers = [] →
      ∀ first second, ¬ HasBase stage first second := by
    intro stage hnil first second hbase
    have hmem := hbase.specializes.mem_targets
    rw [hnil] at hmem
    cases hmem
  have hset : (setBase ⟨[.plain "B"]⟩ ⟨[.plain "A"]⟩).run _ = .ok () pointed :=
    Edit.run_eq_ok_after (by decide)
  have hrun : Relation.ReflTransGen BaseStep .blank pointed :=
    ((Relation.ReflTransGen.refl.tail
      (.other (authored_define ⟨[.plain "A"]⟩)
        fun _ _ hbase => absurd hbase (hnone (by decide) _ _))).tail
      (.other (authored_define ⟨[.plain "B"]⟩)
        fun _ _ hbase => absurd hbase (hnone (by decide) _ _))).tail
      (.set hset fun first second hbase => .inr (honly first second hbase))
  refine ⟨?_, no_cycle_of_run hrun⟩
  unfold HasBase
  decide

/-- Materials of which two hold another one, and bases that are set one after the other: the last
one lets the material below `/P` specialize what specializes it. -/
def nestedBases : Edit Unit := do
  define ⟨[.plain "P"]⟩
  define ⟨[.plain "P", .plain "m"]⟩
  define ⟨[.plain "Q"]⟩
  define ⟨[.plain "Q", .plain "m"]⟩
  define ⟨[.plain "R"]⟩
  setBase ⟨[.plain "R"]⟩ ⟨[.plain "P", .plain "m"]⟩
  setBase ⟨[.plain "Q", .plain "m"]⟩ ⟨[.plain "R"]⟩
  setBase ⟨[.plain "P"]⟩ ⟨[.plain "Q"]⟩

/-- All of these bases are set, and then two materials are the base of each other. -/
theorem bases_below_cycle :
    ∃ stage, nestedBases.run .blank = .ok () stage ∧ ¬ BasesAcyclic stage := by
  have hruns : (nestedBases.run' .blank).isSome = true := by decide
  refine ⟨_, Edit.run_eq_ok_after hruns, ?_⟩
  intro hacyclic
  have hinner : HasBase (Stage.blank.after nestedBases) ⟨[.plain "P", .plain "m"]⟩
      ⟨[.plain "R"]⟩ := by
    unfold HasBase
    decide
  have hback : HasBase (Stage.blank.after nestedBases) ⟨[.plain "R"]⟩
      ⟨[.plain "P", .plain "m"]⟩ := by
    unfold HasBase
    decide
  exact hacyclic ⟨[.plain "R"]⟩ (.tail (.single hback) hinner)

end Material

end LayeredShading
