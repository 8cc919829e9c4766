import LayeredShading.Proofs.Composition.Extension
import LayeredShading.Proofs.Composition.StrongestFirst
import LayeredShading.Proofs.SceneFile.Loading

/-!
# Variant sets of composed prims

Variant sets of opinions add up, so a composed prim declares a variant exactly if one of its
opinions does (`VariantSet.has_variant_iff`), and a stack that keeps arcs and variants declares no
less (`VariantSet.has_variant_of_kept`). The selection in a set is that of the strongest opinion
that makes one, as long as its variant is declared (`VariantSet.selection_eq`).
-/

namespace LayeredShading

/-! ## Lists of variant sets -/

/-- One of the variant sets declares a variant. -/
def Declares (sets : List VariantSetSpec) (choice : VariantChoice) : Prop :=
  ∃ set ∈ sets, set.name = choice.set ∧ choice.variant ∈ set.variants

theorem PrimSpec.declares_iff {spec : PrimSpec} {choice : VariantChoice} :
    spec.declares choice = true ↔ Declares spec.variantSets choice := by
  simp [PrimSpec.declares, Declares]

section Sets

variable {sets : List VariantSetSpec} {name : String} {variants : List String}
  {choice : VariantChoice}

/-- Variants that are added to a set are declared in it, and no others. -/
theorem declares_change_variant_set_iff :
    Declares (changeVariantSet name (addAllNew · variants) sets) choice ↔
      Declares sets choice ∨ name = choice.set ∧ choice.variant ∈ variants := by
  induction sets with
  | nil => simp [changeVariantSet, Declares, mem_addAllNew]
  | cons set rest ih =>
      have hcons : ∀ (set : VariantSetSpec) (rest : List VariantSetSpec),
          Declares (set :: rest) choice ↔
            (set.name = choice.set ∧ choice.variant ∈ set.variants) ∨ Declares rest choice :=
        fun _ _ => List.exists_mem_cons_iff _ _ _
      rw [changeVariantSet]
      split
      next hname =>
        rw [hcons, hcons, mem_addAllNew, hname]
        tauto
      next => rw [hcons, hcons, ih, or_assoc]

theorem names_change_variant_set (change : List String → List String) :
    (changeVariantSet name change sets).map (·.name) = addNew (sets.map (·.name)) name := by
  induction sets with
  | nil => rfl
  | cons set rest ih =>
      rw [changeVariantSet]
      split
      next hname =>
        rw [addNew_of_mem (by simp [hname])]
        rfl
      next hname =>
        rw [List.map_cons, ih, List.map_cons, addNew_cons_of_ne (Ne.symm hname)]

/-- Where no two sets have the same name, the first one of a name declares what is declared in
it. -/
theorem find_declares_iff (hdistinct : (sets.map (·.name)).Nodup) :
    (sets.find? fun set => set.name == choice.set).any
      (fun set => set.variants.contains choice.variant) = true ↔ Declares sets choice := by
  rw [Option.any_eq_true]
  constructor
  · rintro ⟨set, hset, hvariant⟩
    exact ⟨set, List.mem_of_find?_eq_some hset, by simpa using List.find?_some hset,
      List.contains_iff_mem.mp hvariant⟩
  · rintro ⟨set, hset, hname, hvariant⟩
    refine ⟨set, ?_, List.contains_iff_mem.mpr hvariant⟩
    obtain ⟨front, back, rfl⟩ := List.append_of_mem hset
    rw [List.map_append, List.map_cons, List.nodup_append] at hdistinct
    rw [List.find?_append, List.find?_eq_none.mpr, Option.none_or, List.find?_cons]
    · simp [hname]
    · intro other hother hsame
      refine hdistinct.2.2 other.name (List.mem_map_of_mem hother) set.name List.mem_cons_self ?_
      rw [hname]
      exact beq_iff_eq.mp hsame

end Sets

theorem PrimSpec.declares_add_variants_iff {spec : PrimSpec} {set : String}
    {variants : List String} {choice : VariantChoice} :
    (spec.addVariants set variants).declares choice = true ↔
      spec.declares choice = true ∨ set = choice.set ∧ choice.variant ∈ variants := by
  rw [declares_iff, declares_iff]
  exact declares_change_variant_set_iff

/-! ## Overlays -/

namespace Opinion

/-- An overlay declares what one of its opinions declares. -/
theorem declares_overlay_all_iff {opinions : List Opinion} {choice : VariantChoice} :
    Declares (overlayAll opinions).variantSets choice ↔
      ∃ opinion ∈ opinions, opinion.spec.declares choice = true := by
  have hoverlay : ∀ strong weak : List VariantSetSpec,
      Declares (overlayVariantSets strong weak) choice ↔
        Declares strong choice ∨ Declares weak choice :=
    fun strong weak => foldl_holds_iff (Declares · choice)
      (fun set : VariantSetSpec => set.name = choice.set ∧ choice.variant ∈ set.variants)
      (fun _ _ => declares_change_variant_set_iff) weak strong
  have hnil : ¬ Declares [] choice := fun ⟨_, hmem, _⟩ => nomatch hmem
  rw [overlay_all_variant_sets, foldl_holds_iff (Declares · choice) (Declares · choice) hoverlay]
  simp [PrimSpec.declares_iff, hnil]

end Opinion

/-! ## Composed prims -/

namespace VariantSet

open Opinion

variable {stage : Stage} {prim : PrimPath} {choice : VariantChoice} {set : String}

/-- The variant set of a prim is made of that of the overlay of its opinions. -/
theorem find_eq (hprim : stage.hasPrim prim = true) :
    find? stage prim set =
      ((overlayAll (gather stage.layers prim)).variantSets.find? fun sets => sets.name == set).map
        fun sets => ⟨sets.name, sets.variants,
          ((overlayAll (gather stage.layers prim)).variantSelection.get? sets.name).filter
            fun variant => sets.variants.contains variant⟩ := by
  obtain ⟨composed, hcomposed⟩ := Option.isSome_iff_exists.mp hprim
  have hfind : find? stage prim set = (stage.prim? prim).bind (·.variantSet? set) := rfl
  rw [hfind, hcomposed, Option.bind_some, compose_eq_some hcomposed, ComposedPrim.variantSet?,
    ComposedPrim.ofSpec, List.find?_map]
  rfl

/-- A prim declares a variant exactly if one of its opinions does. -/
theorem has_variant_iff :
    hasVariant stage prim choice = true ↔ prim.isRoot = false ∧ prim.hasChoices = false ∧
      ∃ opinion ∈ gather stage.layers prim, opinion.spec.declares choice = true := by
  cases hprim : stage.hasPrim prim with
  | true =>
      obtain ⟨hroot, hplain, -⟩ := compose_is_some_iff.mp hprim
      rw [hasVariant, find_eq hprim, Option.any_map, ← declares_overlay_all_iff,
        ← find_declares_iff (names_overlay_all_nodup _)]
      simp only [hroot, hplain, true_and]
      rfl
  | false =>
      have hnone : stage.prim? prim = none := by simpa [Stage.hasPrim] using hprim
      have hfind : find? stage prim choice.set = none := by rw [find?, hnone]; rfl
      rw [hasVariant, hfind]
      refine iff_of_false Bool.false_ne_true ?_
      rintro ⟨hroot, hplain, opinion, hopinion, -⟩
      rw [gather_eq_nil_of_compose hroot hplain hnone] at hopinion
      cases hopinion

/-- A prim declares what one of its own specs declares. -/
theorem has_variant_of_declared_at (hroot : prim.isRoot = false) (hplain : prim.hasChoices = false)
    (h : DeclaredAt stage.layers prim choice) : hasVariant stage prim choice = true := by
  obtain ⟨spec, hspec, hdeclares⟩ := h
  obtain ⟨layer, hlayer, hspec⟩ := List.mem_filterMap.mp hspec
  obtain ⟨opinion, hopinion, -, -, rfl⟩ :=
    exists_mem_gather_of_local_site (mem_local_sites.mpr (.inl rfl)) hlayer hspec
  exact has_variant_iff.mpr ⟨hroot, hplain, opinion, hopinion, hdeclares⟩

/-- A stack that keeps arcs and variants declares no less. -/
theorem has_variant_of_kept {later : Stage} (h : Kept stage.layers later.layers)
    (hvariant : hasVariant stage prim choice = true) : hasVariant later prim choice = true := by
  obtain ⟨hroot, hplain, hdeclared⟩ := has_variant_iff.mp hvariant
  exact has_variant_iff.mpr ⟨hroot, hplain, h.exists_mem_gather (·.declares choice = true)
    (by simp [PrimSpec.declares, PrimSpec.blank]) (fun _ _ hkept => hkept.declares choice)
    hdeclared⟩

/-- The selection in a set is that of the strongest opinion that makes one, and counts if its
variant is declared. -/
theorem selection_eq (hprim : stage.hasPrim prim = true) :
    selection? stage prim set =
      ((gather stage.layers prim).findSome? fun opinion =>
        opinion.spec.variantSelection.get? set).filter
          fun variant => hasVariant stage prim ⟨set, variant⟩ := by
  have hbind : selection? stage prim set = (find? stage prim set).bind (·.selection) := rfl
  rw [hbind, ← overlay_all_selection]
  simp only [hasVariant, find_eq hprim]
  cases hfind : (overlayAll (gather stage.layers prim)).variantSets.find?
      fun sets => sets.name == set with
  | none => simp
  | some found =>
      have hname : found.name = set := by simpa using List.find?_some hfind
      simp only [Option.map_some, Option.bind_some, Option.any_some, hname]
      rfl

end VariantSet

end LayeredShading
