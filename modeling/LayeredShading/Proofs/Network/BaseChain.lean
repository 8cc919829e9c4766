import LayeredShading.Proofs.Network.BaseMaterial

/-!
# Chains of base materials

The base materials of a material are found by following base after base, and each base is composed
anew. All of them are authored by some spec, so no more distinct ones can be found than specs list,
and following them ends by itself, on a cycle of materials as well. What is found is a chain without
repetition that cannot be continued without one (`Material.base_chain_well_formed`).
-/

namespace LayeredShading

namespace Material

variable {stage : Stage} {material current base : PrimPath} {found : List PrimPath}

/-- Following bases stops where there is no base but one that was found before. -/
theorem base_chain_within_of_ended
    (hended : ∀ base, HasBase stage current base → base ∈ material :: found) (count : Nat) :
    baseChainWithin stage material count found current = found := by
  cases count with
  | zero => rfl
  | succ count =>
      rw [baseChainWithin]
      split
      next => rfl
      next base hbase => exact if_pos (List.mem_cons.mp (hended base hbase))

/-- Following bases goes on with a new one. -/
theorem base_chain_within_of_new (hbase : HasBase stage current base)
    (hnew : base ∉ material :: found) (count : Nat) :
    baseChainWithin stage material (count + 1) found current =
      baseChainWithin stage material count (found ++ [base]) base := by
  rw [HasBase] at hbase
  rw [baseChainWithin, hbase]
  exact if_neg (fun hold => hnew (List.mem_cons.mpr hold))

/-- Base materials that have been found from a material on: each is the base of the one before, none
is found twice, and all are authored. -/
structure Followed (stage : Stage) (material : PrimPath) (found : List PrimPath) : Prop where
  distinct : (material :: found).Nodup
  linked : (material :: found).IsChain (HasBase stage)
  materials : ∀ base ∈ found, isMaterial stage base = true
  authored : found ⊆ Stage.specializedTargets stage.layers

theorem Followed.start (stage : Stage) (material : PrimPath) : Followed stage material [] where
  distinct := List.nodup_singleton material
  linked := List.isChain_singleton material
  materials := nofun
  authored := List.nil_subset _

/-- A new base of the last material found keeps the chain. -/
theorem Followed.next (h : Followed stage material found)
    (hbase : HasBase stage (found.getLastD material) base) (hnew : base ∉ material :: found) :
    Followed stage material (found ++ [base]) where
  distinct := by
    rw [← List.cons_append, List.nodup_append]
    refine ⟨h.distinct, List.nodup_singleton base, fun first hfirst other hother => ?_⟩
    obtain rfl := List.mem_singleton.mp hother
    exact ne_of_mem_of_not_mem hfirst hnew
  linked := by
    rw [← List.cons_append, List.isChain_append]
    refine ⟨h.linked, List.isChain_singleton base, fun last hlast first hfirst => ?_⟩
    rw [List.getLast?_cons] at hlast
    cases hlast
    cases hfirst
    rwa [List.getLastD_eq_getLast?] at hbase
  materials other hother := by
    rcases List.mem_append.mp hother with hother | hother
    · exact h.materials other hother
    · obtain rfl := List.mem_singleton.mp hother
      exact hbase.is_material
  authored := List.append_subset.mpr
    ⟨h.authored, List.cons_subset.mpr ⟨hbase.specializes.mem_targets, List.nil_subset _⟩⟩

/-- With a count that all authored bases fit in, following bases from a chain on gives a chain that
ends for want of a new base, and a greater count gives no other. -/
theorem Followed.within (count : Nat) (h : Followed stage material found)
    (hcount : (Stage.specializedTargets stage.layers).length ≤ count + found.length) :
    ∃ chain, Followed stage material chain ∧
      (∀ base, HasBase stage (chain.getLastD material) base → base ∈ material :: chain) ∧
      ∀ more, baseChainWithin stage material (count + more) found
        (found.getLastD material) = chain := by
  induction count generalizing found with
  | zero =>
      -- as many distinct bases have been found as are authored
      have hall : Stage.specializedTargets stage.layers ⊆ found :=
        subset_of_length_le (List.nodup_cons.mp h.distinct).2 h.authored (by omega)
      have hended : ∀ base, HasBase stage (found.getLastD material) base →
          base ∈ material :: found :=
        fun base hbase => List.mem_cons_of_mem _ (hall hbase.specializes.mem_targets)
      exact ⟨found, h, hended, fun more => base_chain_within_of_ended hended _⟩
  | succ count ih =>
      by_cases hended : ∀ base, HasBase stage (found.getLastD material) base →
          base ∈ material :: found
      · exact ⟨found, h, hended, fun more => base_chain_within_of_ended hended _⟩
      · push Not at hended
        obtain ⟨base, hbase, hnew⟩ := hended
        obtain ⟨chain, hchain, hends, hstable⟩ := ih (h.next hbase hnew)
          (by simp only [List.length_append, List.length_singleton]; omega)
        refine ⟨chain, hchain, hends, fun more => ?_⟩
        rw [Nat.add_right_comm, base_chain_within_of_new hbase hnew, ← hstable more,
          List.getLastD_concat]

/-- The chain of base materials is well formed on every stage, also where materials are the bases of
each other. Following bases ends by itself: a greater count would find nothing more. The chain
repeats no material and does not come back to the one that it starts from; all its members are
materials, each the base of the one before; and it ends only where there is no base, or none that
is new. -/
theorem base_chain_well_formed (stage : Stage) (material : PrimPath) :
    (∀ more, baseChainWithin stage material (specializedCount stage.layers + more) [] material =
      baseChain stage material) ∧
    (baseChain stage material).Nodup ∧ material ∉ baseChain stage material ∧
    (∀ base ∈ baseChain stage material, isMaterial stage base = true) ∧
    (material :: baseChain stage material).IsChain (HasBase stage) ∧
    ∀ base, HasBase stage ((baseChain stage material).getLastD material) base →
      base = material ∨ base ∈ baseChain stage material := by
  obtain ⟨chain, hchain, hends, hstable⟩ :=
    (Followed.start stage material).within (specializedCount stage.layers) (Nat.le_refl _)
  obtain rfl : baseChain stage material = chain := hstable 0
  obtain ⟨hapart, hdistinct⟩ := List.nodup_cons.mp hchain.distinct
  exact ⟨hstable, hdistinct, hapart, hchain.materials, hchain.linked,
    fun base hbase => List.mem_cons.mp (hends base hbase)⟩

/-- Two materials that are the base of each other, and a third one with the first as its base. -/
def ringed : Stage :=
  .ofLayers [⟨"root", .ofList [
    (⟨[.plain "A"]⟩, { PrimSpec.blank .define with
      typeName := some "Material", specializes := some [⟨[.plain "B"]⟩] }),
    (⟨[.plain "B"]⟩, { PrimSpec.blank .define with
      typeName := some "Material", specializes := some [⟨[.plain "A"]⟩] }),
    (⟨[.plain "M"]⟩, { PrimSpec.blank .define with
      typeName := some "Material", specializes := some [⟨[.plain "A"]⟩] })]⟩]

/-- The chain of the third one runs once through the two others, and however far bases are
followed, no more is found. -/
theorem ringed_chain_ends :
    baseChain ringed ⟨[.plain "M"]⟩ = [⟨[.plain "A"]⟩, ⟨[.plain "B"]⟩] ∧
      ∀ more, baseChainWithin ringed ⟨[.plain "M"]⟩ (3 + more) [] ⟨[.plain "M"]⟩ =
        [⟨[.plain "A"]⟩, ⟨[.plain "B"]⟩] := by
  have hchain : baseChain ringed ⟨[.plain "M"]⟩ = [⟨[.plain "A"]⟩, ⟨[.plain "B"]⟩] := by decide
  exact ⟨hchain, fun more =>
    ((base_chain_well_formed ringed ⟨[.plain "M"]⟩).1 more).trans hchain⟩

end Material

end LayeredShading
