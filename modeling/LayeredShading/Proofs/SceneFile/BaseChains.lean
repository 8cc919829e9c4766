import LayeredShading.Proofs.SceneFile.Codec

/-!
# Chains of specialized prims through variants

A spec in a variant belongs to the prim of the variant, so the check of loading takes the choices
off the paths of specs. It leaves them on the targets, where a target in a variant is then no prim
that any arc starts from. So a scene that is loaded has no chain of targets as they are spelled that
leads to a prim above or below the one where it starts; with the choices taken off the targets too
(`SpecBase`) it may have one, but only through a target that is spelled with choices
(`loaded_bases_apart`).
-/

namespace LayeredShading

namespace Stage

variable {layers : List Layer} {stage : Stage} {description : SceneDescription}

/-- A spec of some layer, in whatever variant, lets a prim specialize another or one of its
variants. -/
def SpecBase (layers : List Layer) (prim base : PrimPath) : Prop :=
  ∃ source, SpecSpecializes layers prim source ∧ source.stripChoices = base

/-- A chain of bases starts with the targets of specs as they are spelled, up to its end or to the
first target that is spelled with choices. -/
theorem spelled_or_through_choices {prim base : PrimPath}
    (h : Relation.TransGen (SpecBase layers) prim base) :
    Relation.TransGen (SpecSpecializes layers) prim base ∨
      ∃ middle source, Relation.ReflTransGen (SpecSpecializes layers) prim middle ∧
        SpecSpecializes layers middle source ∧ source.hasChoices = true ∧
        Relation.ReflTransGen (SpecBase layers) source.stripChoices base := by
  induction h with
  | single hstep =>
      obtain ⟨source, hsource, rfl⟩ := hstep
      cases hchoices : source.hasChoices with
      | true => exact .inr ⟨prim, source, .refl, hsource, hchoices, .refl⟩
      | false =>
          rw [PrimPath.strip_eq_self hchoices]
          exact .inl (.single hsource)
  | @tail middle base _ hstep ih =>
      cases ih with
      | inl hspelled =>
          obtain ⟨source, hsource, rfl⟩ := hstep
          cases hchoices : source.hasChoices with
          | true => exact .inr ⟨middle, source, hspelled.to_reflTransGen, hsource, hchoices, .refl⟩
          | false =>
              rw [PrimPath.strip_eq_self hchoices]
              exact .inl (hspelled.tail hsource)
      | inr hthrough =>
          obtain ⟨first, source, hfirst, hsource, hchoices, hrest⟩ := hthrough
          exact .inr ⟨first, source, hfirst, hsource, hchoices, hrest.tail hstep⟩

/-- Bases in loaded scenes. No chain of specialized prims, followed from target to target as specs
of any layer and variant spell them, leads to the prim where it starts or to one above or below it.
A chain that does so with the choices taken off its targets passes a target that is spelled with
choices, so there is none where all targets are plain. -/
theorem loaded_bases_apart (h : ofDescription description = .ok stage) :
    (∀ prim source, Relation.TransGen (SpecSpecializes stage.layers) prim source →
      source.overlaps prim = false) ∧
    (∀ prim base, Relation.TransGen (SpecBase stage.layers) prim base →
      base.overlaps prim = true →
        ∃ middle source, Relation.ReflTransGen (SpecSpecializes stage.layers) prim middle ∧
          SpecSpecializes stage.layers middle source ∧ source.hasChoices = true ∧
          Relation.ReflTransGen (SpecBase stage.layers) source.stripChoices base) ∧
    ((∀ prim source, SpecSpecializes stage.layers prim source → source.hasChoices = false) →
      ∀ prim base, Relation.TransGen (SpecBase stage.layers) prim base →
        base.overlaps prim = false) := by
  have hapart : SpecializesApart stage.layers := (checked_of_loaded h).1
  refine ⟨hapart, fun prim base hchain hoverlaps => ?_, fun hplain prim base hchain => ?_⟩
  · cases spelled_or_through_choices hchain with
    | inl hspelled =>
        rw [hapart prim base hspelled] at hoverlaps
        cases hoverlaps
    | inr hthrough => exact hthrough
  · cases spelled_or_through_choices hchain with
    | inl hspelled => exact hapart prim base hspelled
    | inr hthrough =>
        obtain ⟨middle, source, -, hsource, hchoices, -⟩ := hthrough
        rw [hplain middle source hsource] at hchoices
        cases hchoices

/-- A prim that specializes another one, which specializes a third in its variant. -/
def basesInVariant : SceneDescription where
  layers := [⟨"root", [
    ⟨⟨[.plain "A"]⟩, .define, some "Material", .empty, [], [], some [⟨[.plain "B"]⟩], [], .empty⟩,
    ⟨⟨[.plain "B"]⟩, .define, some "Material", .empty, [], [], none, [⟨"s", ["v"]⟩],
      .ofList [("s", "v")]⟩,
    ⟨⟨[⟨"B", [⟨"s", "v"⟩]⟩]⟩, .define, none, .empty, [], [], some [⟨[.plain "C"]⟩], [], .empty⟩]⟩]

/-- It is loaded, and the chain through the variant leads away from where it starts. -/
theorem bases_in_variant_apart :
    ∃ stage, ofDescription basesInVariant = .ok stage ∧
      Relation.TransGen (SpecSpecializes stage.layers) ⟨[.plain "A"]⟩ ⟨[.plain "C"]⟩ ∧
      (⟨[.plain "C"]⟩ : PrimPath).overlaps ⟨[.plain "A"]⟩ = false := by
  obtain ⟨stage, hload, hfirst, hsecond⟩ : ∃ stage, ofDescription basesInVariant = .ok stage ∧
      SpecSpecializes stage.layers ⟨[.plain "A"]⟩ ⟨[.plain "B"]⟩ ∧
      SpecSpecializes stage.layers ⟨[.plain "B"]⟩ ⟨[.plain "C"]⟩ :=
    ⟨_, rfl, mem_specializes_arcs_iff.mp (by decide), mem_specializes_arcs_iff.mp (by decide)⟩
  have hchain := (Relation.TransGen.single hfirst).tail hsecond
  exact ⟨stage, hload, hchain, (loaded_bases_apart hload).1 _ _ hchain⟩

/-- A prim that specializes the variant of another one, in which that one specializes the first. -/
def basesThroughVariant : SceneDescription where
  layers := [⟨"root", [
    ⟨⟨[.plain "A"]⟩, .define, some "Material", .empty, [], [], some [⟨[⟨"B", [⟨"s", "v"⟩]⟩]⟩], [],
      .empty⟩,
    ⟨⟨[.plain "B"]⟩, .define, some "Material", .empty, [], [], none, [⟨"s", ["v"]⟩],
      .ofList [("s", "v")]⟩,
    ⟨⟨[⟨"B", [⟨"s", "v"⟩]⟩]⟩, .define, none, .empty, [], [], some [⟨[.plain "A"]⟩], [], .empty⟩]⟩]

/-- It is loaded all the same, and the two prims are bases of each other. -/
theorem bases_through_variant_lead_back :
    ∃ stage, ofDescription basesThroughVariant = .ok stage ∧
      Relation.TransGen (SpecBase stage.layers) ⟨[.plain "A"]⟩ ⟨[.plain "A"]⟩ ∧
      Relation.TransGen (SpecBase stage.layers) ⟨[.plain "B"]⟩ ⟨[.plain "B"]⟩ := by
  obtain ⟨stage, hload, hfirst, hsecond⟩ :
      ∃ stage, ofDescription basesThroughVariant = .ok stage ∧
        SpecBase stage.layers ⟨[.plain "A"]⟩ ⟨[.plain "B"]⟩ ∧
        SpecBase stage.layers ⟨[.plain "B"]⟩ ⟨[.plain "A"]⟩ :=
    ⟨_, rfl, ⟨⟨[⟨"B", [⟨"s", "v"⟩]⟩]⟩, mem_specializes_arcs_iff.mp (by decide), rfl⟩,
      ⟨⟨[.plain "A"]⟩, mem_specializes_arcs_iff.mp (by decide), rfl⟩⟩
  exact ⟨stage, hload, (Relation.TransGen.single hfirst).tail hsecond,
    (Relation.TransGen.single hsecond).tail hfirst⟩

end Stage

end LayeredShading
