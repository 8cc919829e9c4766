import LayeredShading.Network.VariantSet
import LayeredShading.Proofs.Reachability
import LayeredShading.Proofs.SceneFile.RoundTrip

/-!
# What the checks of loading accept

The checks of a loaded scene are exact: `checkSpecializes` passes exactly if no chain of prims that
specs specialize, in whatever layers and variants, leads to a prim above or below the one where it
starts (`check_specializes_eq_ok_iff`), and `checkSelections` exactly if every selection names a
variant that the composed prim declares (`check_selections_eq_ok_iff`). A regular stage is loaded
from its description exactly if it passes both checks, and then with the same layers
(`of_description_describe_eq_ok_iff`).
-/

namespace LayeredShading

/-- A sequence of checks passes exactly if all of them do. -/
theorem for_m_eq_ok_iff {ε α : Type} {list : List α} {body : α → Except ε PUnit} :
    list.forM body = .ok ⟨⟩ ↔ ∀ element ∈ list, body element = .ok ⟨⟩ := by
  induction list with
  | nil => simp [pure, Except.pure]
  | cons head rest ih =>
      rw [List.forall_mem_cons]
      show (body head >>= fun _ => rest.forM body) = .ok ⟨⟩ ↔ _
      cases hhead : body head with
      | ok value => simpa [bind, Except.bind] using ih
      | error error => simp [bind, Except.bind]

/-- A sequence of checks fails with the error of one of them. -/
theorem exists_of_for_m_eq_error {ε α : Type} {list : List α} {body : α → Except ε PUnit}
    {error : ε} (h : list.forM body = .error error) :
    ∃ element ∈ list, body element = .error error := by
  induction list with
  | nil => cases h
  | cons head rest ih =>
      cases hhead : body head with
      | ok value =>
          have hrest : (body head >>= fun _ => rest.forM body) = .error error := h
          rw [hhead] at hrest
          obtain ⟨element, hmem, herror⟩ := ih hrest
          exact ⟨element, List.mem_cons_of_mem _ hmem, herror⟩
      | error other =>
          have hother : (body head >>= fun _ => rest.forM body) = .error error := h
          rw [hhead] at hother
          exact ⟨head, List.mem_cons_self, hhead.trans hother⟩

theorem except_bind_eq_ok_iff {ε α β : Type} {first : Except ε α} {next : α → Except ε β}
    {result : β} :
    (first >>= next) = .ok result ↔ ∃ value, first = .ok value ∧ next value = .ok result := by
  cases first with
  | error error => simp [bind, Except.bind]
  | ok value => simp [bind, Except.bind]

/-- What a fold has is what it starts with or what a step adds. -/
theorem foldl_holds_iff {α β : Type} (holds : β → Prop) (adds : α → Prop) {step : β → α → β}
    (hstep : ∀ state element, holds (step state element) ↔ holds state ∨ adds element)
    (list : List α) (state : β) :
    holds (list.foldl step state) ↔ holds state ∨ ∃ element ∈ list, adds element := by
  induction list generalizing state with
  | nil => simp
  | cons head rest ih => simp [ih, hstep, or_assoc]

namespace Stage

variable {layers : List Layer} {stage : Stage}

/-! ## Specialized prims -/

/-- A spec of some layer, in whatever variant, lets a prim specialize another. -/
def SpecSpecializes (layers : List Layer) (prim source : PrimPath) : Prop :=
  ∃ layer ∈ layers, ∃ entry ∈ layer.specs.entries,
    entry.1.stripChoices = prim ∧ source ∈ entry.2.specializes.getD []

/-- The arcs of a prim lead to what specs let it specialize. -/
theorem mem_specializes_arcs_iff {prim source : PrimPath} :
    source ∈ ((specializesArcs layers).get? prim).getD [] ↔ SpecSpecializes layers prim source := by
  rw [specializesArcs]
  refine (foldl_holds_iff
    (fun arcs : SortedMap PrimPath (List PrimPath) => source ∈ (arcs.get? prim).getD [])
    (fun entry : PrimPath × PrimSpec =>
      entry.1.stripChoices = prim ∧ source ∈ entry.2.specializes.getD []) ?_ _ _).trans ?_
  · intro arcs entry
    cases hspecializes : entry.2.specializes with
    | none => simp
    | some sources =>
        by_cases hprim : prim = entry.1.stripChoices
        · subst hprim
          simp [SortedMap.get?_update]
        · simp [SortedMap.get?_update, hprim, Ne.symm hprim]
  · simp only [SpecSpecializes, SortedMap.get?_empty, Option.getD_none, List.not_mem_nil, false_or,
      List.mem_flatMap]
    constructor
    · rintro ⟨entry, ⟨layer, hlayer, hentry⟩, hprim, hsource⟩
      exact ⟨layer, hlayer, entry, hentry, hprim, hsource⟩
    · rintro ⟨layer, hlayer, entry, hentry, hprim, hsource⟩
      exact ⟨entry, ⟨layer, hlayer, hentry⟩, hprim, hsource⟩

/-- From what a prim specializes, the search finds all that it specializes directly or
indirectly. -/
theorem mem_specialized_from_iff {prim found : PrimPath} {sources : List PrimPath}
    (h : (specializesArcs layers).get? prim = some sources) :
    found ∈ specializedFrom (specializesArcs layers) sources ↔
      Relation.TransGen (SpecSpecializes layers) prim found := by
  have htargets : ∀ point : PrimPath, ((specializesArcs layers).get? point).getD [] ⊆
      (specializesArcs layers).entries.flatMap (·.2) := by
    intro point other hother
    cases hpoint : (specializesArcs layers).get? point with
    | none => simp [hpoint] at hother
    | some targets =>
        rw [hpoint] at hother
        exact List.mem_flatMap.mpr ⟨_, SortedMap.get?_eq_some_iff.mp hpoint, hother⟩
  have hstart := htargets prim
  rw [h, Option.getD_some] at hstart
  have hsources : ∀ point, point ∈ sources ↔ SpecSpecializes layers prim point := by
    intro point
    rw [← mem_specializes_arcs_iff, h, Option.getD_some]
  rw [specializedFrom, mem_reachable_iff (fun _ _ => mem_specializes_arcs_iff) _ hstart
    (fun point _ => htargets point) (Nat.le_refl _), Relation.TransGen.head'_iff]
  simp only [hsources]

/-- No chain of specialized prims leads to the prim where it starts or to one above or below it. -/
def SpecializesApart (layers : List Layer) : Prop :=
  ∀ prim source, Relation.TransGen (SpecSpecializes layers) prim source →
    source.overlaps prim = false

/-- Prims that specialize themselves or a prim above or below them are all refused, and no others
are. -/
theorem check_specializes_eq_ok_iff :
    checkSpecializes layers = .ok () ↔ SpecializesApart layers := by
  rw [checkSpecializes, for_m_eq_ok_iff]
  constructor
  · intro h prim source hchain
    obtain ⟨first, hfirst, -⟩ := Relation.TransGen.head'_iff.mp hchain
    rw [← mem_specializes_arcs_iff] at hfirst
    cases hprim : (specializesArcs layers).get? prim with
    | none => simp [hprim] at hfirst
    | some sources =>
        have hfound := (mem_specialized_from_iff hprim).mpr hchain
        have hcheck := h (prim, sources) (SortedMap.get?_eq_some_iff.mp hprim)
        cases hoverlaps : source.overlaps prim with
        | false => rfl
        | true =>
            -- the search would have come to an overlapping prim
            have hfind : ((specializedFrom (specializesArcs layers) sources).find?
                fun other => other.overlaps prim).isSome = true :=
              List.find?_isSome.mpr ⟨source, hfound, hoverlaps⟩
            obtain ⟨other, hother⟩ := Option.isSome_iff_exists.mp hfind
            simp [hother] at hcheck
  · rintro h ⟨owner, sources⟩ hmem
    have howner := SortedMap.get?_eq_some_iff.mpr hmem
    have hnone : (specializedFrom (specializesArcs layers) sources).find?
        (fun prim => prim.overlaps owner) = none := by
      refine List.find?_eq_none.mpr fun source hsource => ?_
      simp [h owner source ((mem_specialized_from_iff howner).mp hsource)]
    simp only [hnone]

/-! ## Selections -/

/-- A spec of some layer, in whatever variant, selects a variant of a prim. -/
def SpecSelects (layers : List Layer) (prim : PrimPath) (choice : VariantChoice) : Prop :=
  ∃ layer ∈ layers, ∃ entry ∈ layer.specs.entries,
    entry.1.stripChoices = prim ∧ (choice.set, choice.variant) ∈ entry.2.variantSelection.entries

/-- Every selection names a variant that the composed prim declares. -/
def SelectionsDeclared (stage : Stage) : Prop :=
  ∀ prim choice, SpecSelects stage.layers prim choice →
    VariantSet.hasVariant stage prim choice = true

theorem check_selection_eq_ok_iff {prim : PrimPath} {choice : VariantChoice} :
    checkSelection prim (stage.prim? prim) choice = .ok () ↔
      VariantSet.hasVariant stage prim choice = true := by
  have hfind : VariantSet.find? stage prim choice.set =
      (stage.prim? prim).bind fun composed => composed.variantSet? choice.set := rfl
  rw [checkSelection, VariantSet.hasVariant, hfind]
  cases (stage.prim? prim).bind fun composed => composed.variantSet? choice.set with
  | none => simp
  | some set => cases hvariant : set.hasVariant choice.variant <;> simp [hvariant]

/-- Selections of variants that are not declared are all refused, and no others are. -/
theorem check_selections_eq_ok_iff :
    checkSelections stage.layers = .ok () ↔ stage.SelectionsDeclared := by
  have hcheck : ∀ prim choice, checkSelection prim (compose stage.layers prim) choice = .ok () ↔
      VariantSet.hasVariant stage prim choice = true := fun _ _ => check_selection_eq_ok_iff
  rw [checkSelections, for_m_eq_ok_iff, List.forall_mem_flatMap]
  simp only [for_m_eq_ok_iff, hcheck]
  constructor
  · rintro h prim ⟨set, variant⟩ ⟨layer, hlayer, entry, hentry, rfl, hselection⟩
    exact h layer hlayer entry hentry (set, variant) hselection
  · intro h layer hlayer entry hentry selection hselection
    exact h _ ⟨selection.1, selection.2⟩ ⟨layer, hlayer, entry, hentry, rfl, hselection⟩

/-! ## Errors of loading -/

/-- What a scene is refused for: a chain of specialized prims that leads to the prim where it starts
or to one above or below it, or a selection of a variant that the composed prim does not declare. -/
inductive Refusal (stage : Stage) : Error → Prop where
  | specializes {prim source : PrimPath} :
      Relation.TransGen (SpecSpecializes stage.layers) prim source →
      source.overlaps prim = true → Refusal stage (.baseMaterialCycle prim.text source.text)
  | variantSet {prim : PrimPath} {choice : VariantChoice} : SpecSelects stage.layers prim choice →
      VariantSet.find? stage prim choice.set = none →
      Refusal stage (.unknownVariantSet prim.text choice.set)
  | variant {prim : PrimPath} {choice : VariantChoice} {composed : ComposedVariantSet} :
      SpecSelects stage.layers prim choice →
      VariantSet.find? stage prim choice.set = some composed →
      composed.hasVariant choice.variant = false →
      Refusal stage (.unknownVariant prim.text choice.set choice.variant)

theorem refusal_of_check_specializes {error : Error}
    (h : checkSpecializes stage.layers = .error error) : Refusal stage error := by
  obtain ⟨⟨owner, sources⟩, hmem, hentry⟩ := exists_of_for_m_eq_error h
  cases hfind : (specializedFrom (specializesArcs stage.layers) sources).find?
      fun prim => prim.overlaps owner with
  | none => simp [hfind] at hentry
  | some prim =>
      simp only [hfind, Except.error.injEq] at hentry
      have howner := SortedMap.get?_eq_some_iff.mpr hmem
      have hoverlaps := List.find?_some hfind
      rw [← hentry]
      exact .specializes
        ((mem_specialized_from_iff howner).mp (List.mem_of_find?_eq_some hfind)) hoverlaps

theorem refusal_of_check_selections {error : Error}
    (h : checkSelections stage.layers = .error error) : Refusal stage error := by
  obtain ⟨⟨path, spec⟩, hspec, hselections⟩ := exists_of_for_m_eq_error h
  obtain ⟨⟨set, variant⟩, hselection, hcheck⟩ := exists_of_for_m_eq_error hselections
  obtain ⟨layer, hlayer, hentry⟩ := List.mem_flatMap.mp hspec
  have hselects : SpecSelects stage.layers path.stripChoices ⟨set, variant⟩ :=
    ⟨layer, hlayer, _, hentry, rfl, hselection⟩
  simp only [checkSelection] at hcheck
  split at hcheck
  next hfind =>
    rw [← Except.error.inj hcheck]
    exact .variantSet hselects hfind
  next composed hfind =>
    split at hcheck
    next => cases hcheck
    next hvariant =>
      rw [← Except.error.inj hcheck]
      exact .variant hselects hfind (Bool.not_eq_true _ ▸ hvariant)

/-! ## Loading a description -/

/-- A stage is loaded if its layers are read and both checks pass. -/
theorem of_description_eq_ok_iff {description : SceneDescription} :
    ofDescription description = .ok stage ↔
      ∃ layers, description.layers.mapM LayerDescription.toLayer = .ok layers ∧
        checkSpecializes layers = .ok () ∧ checkSelections layers = .ok () ∧
        stage = ofLayers layers := by
  have hpure : ∀ layers, (pure (ofLayers layers) : Except Error Stage) = .ok stage ↔
      stage = ofLayers layers := fun layers => by simp [pure, Except.pure, eq_comm]
  simp only [ofDescription, except_bind_eq_ok_iff, hpure]
  exact ⟨fun ⟨layers, hlayers, _, hspecializes, _, hselections, hstage⟩ =>
    ⟨layers, hlayers, hspecializes, hselections, hstage⟩, fun ⟨layers, hlayers, hspecializes,
      hselections, hstage⟩ => ⟨layers, hlayers, (), hspecializes, (), hselections, hstage⟩⟩

/-- A regular stage whose defaults fit is loaded from its description if the checks pass. -/
theorem of_description_describe (h : stage.Regular) (hfit : stage.DefaultsFit) :
    ofDescription stage.describe = (do
      checkSpecializes stage.layers
      checkSelections stage.layers
      return ⟨stage.layers, .ofLayer 0⟩) := by
  have hlayers : ofLayers stage.layers = ⟨stage.layers, .ofLayer 0⟩ := by
    rw [ofLayers, List.isEmpty_eq_false_iff.mpr h.layers_ne_nil, if_neg Bool.false_ne_true]
  rw [ofDescription, to_layers_describe h hfit, ← hlayers]
  rfl

/-- It is loaded exactly if no chain of specialized prims and no selection speaks against it, and
then with the same layers. -/
theorem of_description_describe_eq_ok_iff (h : stage.Regular) (hfit : stage.DefaultsFit)
    {loaded : Stage} :
    ofDescription stage.describe = .ok loaded ↔
      SpecializesApart stage.layers ∧ stage.SelectionsDeclared ∧
        loaded = ⟨stage.layers, .ofLayer 0⟩ := by
  rw [of_description_describe h hfit, ← check_specializes_eq_ok_iff, ← check_selections_eq_ok_iff]
  cases checkSpecializes stage.layers with
  | error error => simp [bind, Except.bind]
  | ok value =>
      cases checkSelections stage.layers with
      | error error => simp [bind, Except.bind]
      | ok value => simp [bind, Except.bind, pure, Except.pure, eq_comm]

/-- It is refused only for a chain of specialized prims or for a selection. -/
theorem refusal_of_of_description (h : stage.Regular) (hfit : stage.DefaultsFit) {error : Error}
    (herror : ofDescription stage.describe = .error error) : Refusal stage error := by
  rw [of_description_describe h hfit] at herror
  cases hspecializes : checkSpecializes stage.layers with
  | error other =>
      obtain rfl : other = error := by simpa [hspecializes, bind, Except.bind] using herror
      exact refusal_of_check_specializes hspecializes
  | ok value =>
      cases hselections : checkSelections stage.layers with
      | error other =>
          obtain rfl : other = error := by
            simpa [hspecializes, hselections, bind, Except.bind] using herror
          exact refusal_of_check_selections hselections
      | ok value => simp [hspecializes, hselections, bind, Except.bind, pure, Except.pure] at herror

end Stage

end LayeredShading
