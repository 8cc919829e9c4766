import LayeredShading.Proofs.Network.VariantSets
import LayeredShading.Proofs.SceneFile.Codec
import LayeredShading.Proofs.SceneFile.Reload

/-!
# Scenes that are extended

A stage that is loaded and then extended (`Stage.ExtendsTo`) is loaded again from its description.
Its specs stay such as can be written (`Stage.Writable`), no spec specializes or selects anything
new, and composed prims declare no less, so both checks of loading pass (`ExtendsTo.reloads`).
-/

namespace LayeredShading

/-! ## Checks of a stack that is extended -/

section Checks

variable {layers others : List Layer} {prim : PrimPath}

/-- A spec about a prim has what blank specs have not exactly if one at a path does, where blank
specs stand for those that are missing. -/
theorem Layer.exists_entry_iff {layer : Layer} (holds : PrimSpec → Prop)
    (hblank : ¬ holds (.blank .override)) :
    (∃ entry ∈ layer.specs.entries, entry.1.stripChoices = prim ∧ holds entry.2) ↔
      ∃ path : PrimPath, path.stripChoices = prim ∧ holds (layer.specOrBlank path) := by
  constructor
  · rintro ⟨⟨path, spec⟩, hentry, hprim, hholds⟩
    have hspec : layer.spec? path = some spec := SortedMap.get?_eq_some_iff.mpr hentry
    exact ⟨path, hprim, by rwa [specOrBlank, hspec]⟩
  · rintro ⟨path, hprim, hholds⟩
    rw [specOrBlank] at hholds
    cases hspec : layer.spec? path with
    | none => exact absurd (by rwa [hspec] at hholds) hblank
    | some spec =>
        rw [hspec] at hholds
        exact ⟨(path, spec), SortedMap.get?_eq_some_iff.mp hspec, hprim, hholds⟩

namespace Stage

/-- What blank specs have not and specs do not gain when they are extended was there before. -/
theorem exists_entry_of_extended (h : Opinion.Extended layers others) (holds : PrimSpec → Prop)
    (hblank : ¬ holds (.blank .override))
    (hkept : ∀ spec more : PrimSpec, spec.ExtendedBy more → holds more → holds spec)
    (hentry : ∃ other ∈ others, ∃ entry ∈ other.specs.entries,
      entry.1.stripChoices = prim ∧ holds entry.2) :
    ∃ layer ∈ layers, ∃ entry ∈ layer.specs.entries,
      entry.1.stripChoices = prim ∧ holds entry.2 := by
  obtain ⟨other, hother, hentry⟩ := hentry
  obtain ⟨path, hprim, hholds⟩ := (Layer.exists_entry_iff holds hblank).mp hentry
  obtain ⟨layer, hlayer, hextended⟩ := Opinion.exists_of_forall₂ h.each.flip hother
  exact ⟨layer, hlayer, (Layer.exists_entry_iff holds hblank).mpr
    ⟨path, hprim, hkept _ _ (hextended.spec path) hholds⟩⟩

theorem specializes_apart_of_extended (h : Opinion.Extended layers others)
    (hapart : SpecializesApart layers) : SpecializesApart others := by
  intro prim source hchain
  have hkept : ∀ owner base,
      SpecSpecializes others owner base → SpecSpecializes layers owner base := fun owner base =>
    exists_entry_of_extended h (base ∈ ·.specializes.getD []) List.not_mem_nil
      fun _ _ hextended hbase => hextended.specializes_eq ▸ hbase
  exact hapart prim source (Relation.TransGen.mono hkept _ _ hchain)

theorem selections_declared_of_extended {stage later : Stage}
    (h : Opinion.Extended stage.layers later.layers) (hdeclared : stage.SelectionsDeclared) :
    later.SelectionsDeclared := by
  intro prim choice hselects
  refine VariantSet.has_variant_of_kept h.kept (hdeclared prim choice ?_)
  exact exists_entry_of_extended h ((choice.set, choice.variant) ∈ ·.variantSelection.entries)
    List.not_mem_nil (fun _ _ hextended hchoice => hextended.selection_eq ▸ hchoice) hselects

end Stage

end Checks

/-! ## What can be written -/

/-- A spec that is read back from what is written of it at a path. -/
structure PrimSpec.Writable (path : PrimPath) (spec : PrimSpec) : Prop where
  not_root : path.isRoot = false
  regular : spec.Regular
  fits : ∀ part ∈ spec.attributes.entries, part.2.Fits
  spellable : (spec.describe path).Spellable

namespace PrimSpec

variable {path : PrimPath} {spec more : PrimSpec}

theorem Writable.blank (hroot : path.isRoot = false) (hpath : path.Spellable)
    (specifier : Specifier) : (PrimSpec.blank specifier).Writable path :=
  ⟨hroot, .blank specifier, fun _ hpart => absurd hpart List.not_mem_nil,
    ⟨hpath, nofun, nofun, nofun⟩⟩

/-- A spec can still be written if it gains nothing but references that can be spelled. -/
theorem Writable.of_eq (h : spec.Writable path) (hattributes : more.attributes = spec.attributes)
    (hmetadata : more.metadata = spec.metadata) (hspecializes : more.specializes = spec.specializes)
    (hreferences : ∀ source ∈ more.references, source ∈ spec.references ∨ source.Spellable) :
    more.Writable path where
  not_root := h.not_root
  regular := h.regular.of_eq hattributes hmetadata
  fits := hattributes ▸ h.fits
  spellable := by
    refine ⟨h.spellable.path, ?_, fun source hsource => ?_, ?_⟩
    · show ∀ part ∈ more.attributes.entries.map _, _
      rw [hattributes]
      exact h.spellable.attributes
    · exact (hreferences source hsource).elim (h.spellable.references source) id
    · show ∀ paths ∈ more.specializes, _
      rw [hspecializes]
      exact h.spellable.specializes

end PrimSpec

namespace Stage

variable {stage later : Stage}

/-- All layers of a stage, of which there is one, are read back from what is written of them. -/
structure Writable (stage : Stage) : Prop where
  layers_ne_nil : stage.layers ≠ []
  specs : ∀ layer ∈ stage.layers, ∀ entry ∈ layer.specs.entries, entry.2.Writable entry.1

/-- A stage that is loaded can be written. -/
theorem writable_of_loaded {description : SceneDescription}
    (h : ofDescription description = .ok stage) (hrange : description.InRange)
    (hspellable : description.Spellable) : stage.Writable := by
  have hregular := regular_of_loaded h
  have hdescribed := spellable_describe h hspellable
  refine ⟨hregular.layers_ne_nil, fun layer hlayer entry hentry => ?_⟩
  obtain ⟨hroot, hspec⟩ := hregular.layers layer hlayer entry hentry
  exact ⟨hroot, hspec, defaults_fit_of_loaded h hrange layer hlayer entry hentry,
    hdescribed _ (List.mem_map_of_mem hlayer) _ (List.mem_map_of_mem hentry)⟩

/-- A stage that can be written and passes the checks is loaded from its description, and from the
text of that if a text is read back as the value that it is written of. -/
theorem Writable.reloads (h : stage.Writable) (hspecializes : SpecializesApart stage.layers)
    (hselections : stage.SelectionsDeclared) (htarget : stage.target = .ofLayer 0) :
    ofDescription stage.describe = .ok stage ∧
      (Json.ofText? stage.describe.text = some stage.describe.toJson →
        parse stage.describe.text = .ok stage) := by
  have hregular : stage.Regular := ⟨h.layers_ne_nil, fun layer hlayer entry hentry =>
    ⟨(h.specs layer hlayer entry hentry).not_root, (h.specs layer hlayer entry hentry).regular⟩⟩
  have hfit : stage.DefaultsFit := fun layer hlayer entry hentry =>
    (h.specs layer hlayer entry hentry).fits
  have hspellable : stage.describe.Spellable := by
    intro _ hlayers _ hprims
    obtain ⟨layer, hlayer, rfl⟩ := List.mem_map.mp hlayers
    obtain ⟨entry, hentry, rfl⟩ := List.mem_map.mp hprims
    exact (h.specs layer hlayer entry hentry).spellable
  have hreload : ofDescription stage.describe = .ok stage :=
    (of_description_describe_eq_ok_iff hregular hfit).mpr
      ⟨hspecializes, hselections, htarget ▸ rfl⟩
  refine ⟨hreload, fun htext => ?_⟩
  rw [parse, parse_text_describe hspellable hfit htext]
  exact hreload

/-! ## Extension -/

/-- A stage goes on to another one with the same target: its stack is extended and can still be
written. -/
structure ExtendsTo (stage later : Stage) : Prop where
  target_eq : later.target = stage.target
  extended : Opinion.Extended stage.layers later.layers
  writable : stage.Writable → later.Writable

theorem ExtendsTo.refl (stage : Stage) : stage.ExtendsTo stage := ⟨rfl, .refl _, id⟩

theorem ExtendsTo.trans {first second third : Stage} (h : first.ExtendsTo second)
    (hnext : second.ExtendsTo third) : first.ExtendsTo third :=
  ⟨hnext.target_eq.trans h.target_eq, h.extended.trans hnext.extended, hnext.writable ∘ h.writable⟩

/-- A stage that has passed the checks of loading is loaded again when it has been
extended. -/
theorem ExtendsTo.reloads (h : stage.ExtendsTo later) (hwritable : stage.Writable)
    (hspecializes : SpecializesApart stage.layers) (hselections : stage.SelectionsDeclared)
    (htarget : stage.target = .ofLayer 0) :
    ofDescription later.describe = .ok later ∧
      (Json.ofText? later.describe.text = some later.describe.toJson →
        parse later.describe.text = .ok later) :=
  (h.writable hwritable).reloads (specializes_apart_of_extended h.extended hspecializes)
    (selections_declared_of_extended h.extended hselections) (h.target_eq.trans htarget)

section Changed

variable {place : Nat} {site : PrimPath} {specifier : Specifier} {change : PrimSpec → PrimSpec}

/-- A change keeps a stage writable if it keeps specs at its path writable. -/
theorem Writable.changed (h : stage.Writable) (hroot : site.isRoot = false)
    (hsite : site.Spellable)
    (hchange : ∀ spec : PrimSpec, spec.Writable site → (change spec).Writable site) :
    (stage.changed place site specifier change).Writable := by
  refine ⟨?_, forall_entries_iff.mpr (forall_spec_changed ?_ ?_ fun spec hspec => ?_)⟩
  · rw [← List.length_pos_iff, length_layers_changed, List.length_pos_iff]
    exact h.layers_ne_nil
  · exact forall_entries_iff.mp h.specs
  · exact .blank hroot hsite specifier
  · exact hchange _ (hspec.of_eq rfl rfl rfl fun _ => .inl)

end Changed

end Stage

end LayeredShading
