import LayeredShading.Proofs.Network.VariantSets
import LayeredShading.Proofs.Stage.AttributeTypes

/-!
# Declarations last

No action takes back what specs declare. Whatever an operation writes, the spec goes on to define
its prim if it did and to declare its attributes with their types, and its references, variant sets
and variants only get new ones at their end (`PrimSpec.Keeps`). This is so for every single write
(`Operation.Writes.keeps`), whether or not the operation that writes goes on to fail, so it is so
for runs of any length from any stage (`Stage.declarations_last`).
-/

namespace LayeredShading

/-! ## Lists that grow at their end -/

/-- A list has grown at its end, by elements that were not there and that differ from each other. -/
def AppendsNew {α : Type} (before after : List α) : Prop :=
  ∃ added, before ++ added = after ∧ added.Nodup ∧ ∀ element ∈ added, element ∉ before

namespace AppendsNew

variable {α : Type} {before between after : List α}

theorem refl (list : List α) : AppendsNew list list :=
  ⟨[], List.append_nil list, .nil, List.forall_mem_nil _⟩

theorem trans (h : AppendsNew before between) (hafter : AppendsNew between after) :
    AppendsNew before after := by
  obtain ⟨first, rfl, hfirst, hnew⟩ := h
  obtain ⟨second, rfl, hsecond, hnewer⟩ := hafter
  refine ⟨first ++ second, (List.append_assoc _ _ _).symm, ?_, ?_⟩
  · refine List.nodup_append.mpr ⟨hfirst, hsecond, ?_⟩
    intro element hmem other hother hsame
    exact hnewer other hother (List.mem_append_right before (hsame ▸ hmem))
  · intro element hmem hold
    cases List.mem_append.mp hmem with
    | inl hmem => exact hnew element hmem hold
    | inr hmem => exact hnewer element hmem (List.mem_append_left first hold)

variable [DecidableEq α]

/-- A new element is appended. -/
theorem add_new (list : List α) (element : α) : AppendsNew list (addNew list element) := by
  unfold addNew
  split
  next => exact refl list
  next hnew =>
    exact ⟨[element], rfl, List.nodup_singleton element, List.forall_mem_singleton.mpr hnew⟩

/-- New elements are appended. -/
theorem add_all_new (list others : List α) : AppendsNew list (addAllNew list others) := by
  induction others generalizing list with
  | nil => exact refl list
  | cons head rest ih => exact (add_new list head).trans (ih (addNew list head))

end AppendsNew

/-! ## Specs -/

namespace PrimSpec

/-- The variants of the set at a position; a set that is not there has none. -/
def variantsAt (sets : List VariantSetSpec) (index : Nat) : List String :=
  (sets[index]?.map (·.variants)).getD []

/-- A spec goes on to declare all that it did, in the same order. -/
structure Keeps (before after : PrimSpec) : Prop where
  define : before.specifier = .define → after.specifier = .define
  attributes : ∀ name own, before.attributes.get? name = some own →
    ∃ now, after.attributes.get? name = some now ∧ now.type = own.type ∧ now.custom = own.custom
  references : AppendsNew before.references after.references
  names : AppendsNew (before.variantSets.map (·.name)) (after.variantSets.map (·.name))
  variants : ∀ index,
    AppendsNew (variantsAt before.variantSets index) (variantsAt after.variantSets index)

variable {before between after : PrimSpec}

theorem Keeps.refl (spec : PrimSpec) : spec.Keeps spec where
  define := id
  attributes := fun _ own h => ⟨own, h, rfl, rfl⟩
  references := .refl _
  names := .refl _
  variants := fun _ => .refl _

theorem Keeps.trans (h : before.Keeps between) (hafter : between.Keeps after) :
    before.Keeps after where
  define := hafter.define ∘ h.define
  attributes := by
    intro name own hown
    obtain ⟨old, hold, htype, hcustom⟩ := h.attributes name own hown
    obtain ⟨now, hnow, hsame, hflag⟩ := hafter.attributes name old hold
    exact ⟨now, hnow, hsame.trans htype, hflag.trans hcustom⟩
  references := h.references.trans hafter.references
  names := h.names.trans hafter.names
  variants := fun index => (h.variants index).trans (hafter.variants index)

/-- The spec of a change defines its prim if it did before. -/
theorem keeps_join (spec : PrimSpec) (specifier : Specifier) :
    spec.Keeps { spec with specifier := spec.specifier.join specifier } :=
  { Keeps.refl spec with
    define := by
      intro h
      show spec.specifier.join specifier = .define
      rw [h]
      rfl }

section Attributes

variable {edit : AttributeSpec → AttributeSpec}
  (hedit : ∀ own, (edit own).type = own.type ∧ (edit own).custom = own.custom)

include hedit

/-- Changing an attribute, and declaring it if need be, keeps all declarations. -/
theorem keeps_change_attribute (spec : PrimSpec) (name : String) (declared : AttributeSpec) :
    spec.Keeps (spec.changeAttribute name declared edit) :=
  { Keeps.refl spec with
    attributes := by
      intro other own hown
      show ∃ now, (spec.attributes.update name declared edit).get? other = some now ∧ _
      rw [SortedMap.get?_update]
      split
      next hname =>
        subst hname
        rw [hown, Option.getD_some]
        exact ⟨_, rfl, hedit own⟩
      next => exact ⟨own, hown, rfl, rfl⟩ }

theorem keeps_change_own_attribute (spec : PrimSpec) (name : String) :
    spec.Keeps (spec.changeOwnAttribute name edit) :=
  { Keeps.refl spec with
    attributes := by
      intro other own hown
      show ∃ now, (spec.attributes.modify name edit).get? other = some now ∧ _
      rw [SortedMap.get?_modify]
      split
      next hname =>
        subst hname
        rw [hown, Option.map_some]
        exact ⟨_, rfl, hedit own⟩
      next => exact ⟨own, hown, rfl, rfl⟩ }

end Attributes

/-- Where one set is changed, the variants of each set are those that it had or what the change
makes of them. -/
theorem variants_at_change {name : String} {change : List String → List String}
    (hchange : ∀ variants, AppendsNew variants (change variants)) (sets : List VariantSetSpec)
    (index : Nat) :
    AppendsNew (variantsAt sets index) (variantsAt (changeVariantSet name change sets) index) := by
  induction sets generalizing index with
  | nil =>
      cases index with
      | zero => exact hchange []
      | succ index => exact .refl []
  | cons set rest ih =>
      rw [changeVariantSet]
      split
      next =>
        cases index with
        | zero => exact hchange set.variants
        | succ index => exact .refl _
      next =>
        cases index with
        | zero => exact .refl _
        | succ index => exact ih index

/-- Changing a variant set so that variants are only appended keeps all declarations. -/
theorem keeps_change_variant_set (spec : PrimSpec) (name : String)
    {change : List String → List String}
    (hchange : ∀ variants, AppendsNew variants (change variants)) :
    spec.Keeps { spec with variantSets := changeVariantSet name change spec.variantSets } :=
  { Keeps.refl spec with
    names := by
      show AppendsNew _ ((changeVariantSet name change spec.variantSets).map (·.name))
      rw [names_change_variant_set]
      exact .add_new _ _
    variants := variants_at_change hchange spec.variantSets }

end PrimSpec

/-! ## Stages -/

namespace Stage

/-- The layers of a stage are still there, with all that their specs declare; a spec that has been
made since has grown from a blank one. -/
structure KeepsDeclarations (stage later : Stage) : Prop where
  identifiers : stage.layerIdentifiers <+: later.layerIdentifiers
  spec : ∀ place site spec, stage.spec? place site = some spec →
    ∃ now, later.spec? place site = some now ∧ spec.Keeps now
  made : ∀ place site now, stage.spec? place site = none → later.spec? place site = some now →
    (PrimSpec.blank .override).Keeps now

variable {stage between later : Stage}

namespace KeepsDeclarations

theorem refl (stage : Stage) : stage.KeepsDeclarations stage where
  identifiers := List.prefix_refl _
  spec := fun _ _ spec h => ⟨spec, h, .refl spec⟩
  made := by
    intro place site now hnone hsome
    rw [hnone] at hsome
    cases hsome

theorem trans (h : stage.KeepsDeclarations between) (hlater : between.KeepsDeclarations later) :
    stage.KeepsDeclarations later where
  identifiers := h.identifiers.trans hlater.identifiers
  spec := by
    intro place site spec hspec
    obtain ⟨old, hold, hkeeps⟩ := h.spec place site spec hspec
    obtain ⟨now, hnow, hlast⟩ := hlater.spec place site old hold
    exact ⟨now, hnow, hkeeps.trans hlast⟩
  made := by
    intro place site now hnone hnow
    cases hbetween : between.spec? place site with
    | none => exact hlater.made place site now hbetween hnow
    | some old =>
        obtain ⟨found, hfound, hkeeps⟩ := hlater.spec place site old hbetween
        obtain rfl : found = now := Option.some.inj (hfound.symm.trans hnow)
        exact (h.made place site old hnone hbetween).trans hkeeps

/-- Where all specs are as they were nothing is taken back. -/
theorem of_spec_eq (hidentifiers : stage.layerIdentifiers <+: later.layerIdentifiers)
    (hspec : ∀ place site, later.spec? place site = stage.spec? place site) :
    stage.KeepsDeclarations later where
  identifiers := hidentifiers
  spec := fun place site spec h => ⟨spec, (hspec place site).trans h, .refl spec⟩
  made := by
    intro place site now hnone hsome
    rw [hspec, hnone] at hsome
    cases hsome

end KeepsDeclarations

end Stage

/-! ## Writes -/

namespace Operation

variable {operation : Operation} {stage later : Stage} {path : PrimPath} {specifier : Specifier}
  {change : PrimSpec → PrimSpec}

/-- What an operation makes of a spec declares all that the spec did. -/
theorem Makes.keeps (h : operation.Makes stage path specifier change) (spec : PrimSpec) :
    spec.Keeps (change spec) := by
  cases h with
  | definePrim => exact { PrimSpec.Keeps.refl spec with }
  | defineAbove | overridePrim => exact .refl spec
  | createAttribute | setDefault | setConnections | addConnection =>
      refine spec.keeps_change_attribute ?_ _ _
      exact fun _ => ⟨rfl, rfl⟩
  | addReference =>
      exact { PrimSpec.Keeps.refl spec with references := .add_new _ _ }
  | setSpecializes => exact { PrimSpec.Keeps.refl spec with }
  | addVariantSet => exact spec.keeps_change_variant_set _ .refl
  | addVariant => exact spec.keeps_change_variant_set _ (.add_all_new · _)
  | selectVariant => exact { PrimSpec.Keeps.refl spec with }

/-- What an operation amends of a spec is none of its declarations. -/
theorem Amends.keeps (h : operation.Amends path change) (spec : PrimSpec) :
    spec.Keeps (change spec) := by
  cases h with
  | clearDefault | clearConnections =>
      refine spec.keeps_change_own_attribute ?_ _
      exact fun _ => ⟨rfl, rfl⟩
  | clearSpecializes | clearSelection => exact { PrimSpec.Keeps.refl spec with }

/-- A write takes back no declaration. -/
theorem Writes.keeps (h : operation.Writes stage later) : stage.KeepsDeclarations later where
  identifiers := h.identifiers_eq ▸ List.prefix_refl _
  spec := by
    intro place site spec hspec
    rcases h.spec_cases place site with hsame | ⟨_, specifier, _, hmakes, -, hmade⟩ |
      ⟨_, _, hamends, -, hamended⟩
    · exact ⟨spec, hsame.trans hspec, .refl spec⟩
    · rw [hspec, Option.getD_some] at hmade
      exact ⟨_, hmade, (spec.keeps_join specifier).trans (hmakes.keeps _)⟩
    · rw [hspec, Option.map_some] at hamended
      exact ⟨_, hamended, hamends.keeps spec⟩
  made := by
    intro place site now hnone hnow
    rcases h.spec_cases place site with hsame | ⟨_, specifier, _, hmakes, -, hmade⟩ |
      ⟨_, _, _, -, hamended⟩
    · rw [hsame, hnone] at hnow
      cases hnow
    · rw [hnone, Option.getD_none, hnow] at hmade
      obtain rfl := Option.some.inj hmade
      have hblank : (PrimSpec.blank .override).Keeps (.blank specifier) :=
        { PrimSpec.Keeps.refl (.blank .override) with define := nofun }
      exact hblank.trans (((PrimSpec.blank specifier).keeps_join specifier).trans
        (hmakes.keeps _))
    · rw [hamended, hnone] at hnow
      cases hnow

end Operation

/-! ## Runs -/

namespace Stage

/-- A new sublayer comes after the layers that are there. -/
theorem identifiers_prefix_after (stage : Stage) (action : Action) :
    stage.layerIdentifiers <+: (stage.after action.run).layerIdentifiers := by
  cases action with
  | author operation =>
      have hidentifiers := (operation.framed stage).identifiers_eq
      exact hidentifiers ▸ List.prefix_refl _
  | addSublayer identifier =>
      show stage.layerIdentifiers <+: (stage.layers ++ [Layer.blank identifier]).map (·.identifier)
      rw [List.map_append]
      exact List.prefix_append _ _
  | setTarget target =>
      rw [Action.run, Edit.after_set_target]
      split <;> exact List.prefix_refl _

/-- An action takes back no declaration, whether or not it fails. -/
theorem KeepsDeclarations.after (stage : Stage) (action : Action) :
    stage.KeepsDeclarations (stage.after action.run) := by
  rcases authors_or_leaves_specs stage action with ⟨operation, rfl⟩ | hspecs
  · exact Operation.after_of_writes stage.KeepsDeclarations (.refl stage)
      fun _ _ hbetween hwrite => hbetween.trans hwrite.keeps
  · exact .of_spec_eq (identifiers_prefix_after stage action) hspecs

/-- A run of actions keeps all declarations. -/
theorem KeepsDeclarations.after_actions (stage : Stage) (actions : List Action) :
    stage.KeepsDeclarations (stage.afterActions actions) := by
  induction actions generalizing stage with
  | nil => exact .refl stage
  | cons action rest ih => exact (KeepsDeclarations.after stage action).trans (ih _)

/-- Authoring never takes back declarations. After any run of actions from any stage, whether or
not they fail, all layers are where they were and are called what they were, and every spec is still
there and declares what it did: it defines its prim if it did, each attribute has its type and its
flag, and the references, the variant sets and the variants of each set have grown at their end, if
at all, by new ones. A spec that the run has made has grown from a blank one in the same way. -/
theorem declarations_last (stage : Stage) (actions : List Action) :
    let later := stage.afterActions actions
    (∃ added, later.layerIdentifiers = stage.layerIdentifiers ++ added) ∧
      ∀ place site,
        (∀ spec, stage.spec? place site = some spec →
          ∃ now, later.spec? place site = some now ∧ spec.Keeps now) ∧
        (stage.spec? place site = none → ∀ now, later.spec? place site = some now →
          (PrimSpec.blank .override).Keeps now) := by
  intro later
  have hkept : stage.KeepsDeclarations later := .after_actions stage actions
  obtain ⟨added, hadded⟩ := hkept.identifiers
  refine ⟨⟨added, hadded.symm⟩, fun place site => ⟨hkept.spec place site, ?_⟩⟩
  exact fun hnone now => hkept.made place site now hnone

end Stage

end LayeredShading
