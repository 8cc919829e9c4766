import LayeredShading.Proofs.Stage.AttributeTypes

/-!
# Reading back what is written

What the first layer says on a prim under the prim's own path is the strongest opinion on it, and
its connections name prims as the scene does. So the composed prim shows what this spec says
(`Stage.exists_prim_shows`), whatever weaker layers, selections, references and cycles say besides.
An operation that writes there is read back from the composed scene right after it
(`Stage.writes_read_back`).
-/

namespace LayeredShading

open Opinion

/-! ## What the strongest spec says -/

/-- A composed attribute shows what a spec says about it. -/
structure ComposedAttribute.Shows (composed : ComposedAttribute) (spec : AttributeSpec) : Prop where
  type_eq : composed.type = spec.type
  custom_eq : composed.custom = spec.custom
  default : ∀ value, spec.default = some value → composed.default = some value
  connections : ∀ sources, spec.connections = some sources → composed.connections = sources

/-- A composed prim shows what a spec says about it, its variants aside. References, to which all
opinions add, hold those of the spec, and all else is as in the spec where that says anything. -/
structure ComposedPrim.Shows (prim : ComposedPrim) (spec : PrimSpec) : Prop where
  defined : spec.specifier = .define → prim.defined = true
  type_name : ∀ typeName, spec.typeName = some typeName → prim.typeName = some typeName
  metadata : ∀ key value, spec.metadata.get? key = some value →
    prim.metadata.get? key = some value
  property : ∀ name own, isPropertyName name = true → spec.attributes.get? name = some own →
    ∃ composed, prim.attribute? name = some composed ∧ composed.Shows own
  references : ∀ source ∈ spec.references, source ∈ prim.references
  specializes : ∀ sources, spec.specializes = some sources → prim.specializes = sources

/-- A prim shows what its strongest opinion says if that is under the prim's own path. -/
theorem ComposedPrim.StrongestFirst.shows {prim : ComposedPrim} {path : PrimPath} {first : Opinion}
    {weaker : List Opinion} (h : prim.StrongestFirst path (first :: weaker))
    (hmap : first.map = .identity) : prim.Shows first.spec where
  defined hdefine := h.defined_iff.mpr ⟨first, List.mem_cons_self, hdefine⟩
  type_name typeName htype := by rw [h.type_name, List.findSome?_cons, htype]
  metadata key value hvalue := by rw [h.metadata_value, List.findSome?_cons, hvalue]
  property name own hname hown := by
    have hdeclared : ((first :: weaker).findSome? fun opinion =>
        opinion.spec.attributes.get? name) = some own := by
      rw [List.findSome?_cons, hown]
    have hidentity : (NamespaceMap.identity.apply : PropertyPath → PropertyPath) = id := rfl
    have hnamed := h.attribute_named name
    rw [if_pos hname, hdeclared, Option.map_some] at hnamed
    refine ⟨_, hnamed, rfl, rfl, fun value hvalue => ?_, fun sources hsources => ?_⟩
    · simp [hown, hvalue]
    · simp [hown, hsources, hmap, hidentity]
  references source hsource := by
    rw [h.references, List.mem_eraseDups]
    exact List.mem_flatMap.mpr ⟨first, List.mem_cons_self, hsource⟩
  specializes sources hsources := by
    rw [h.specializes, List.findSome?_cons, hsources, Option.getD_some]

namespace Stage

variable {stage later : Stage} {path : PrimPath} {spec : PrimSpec}

/-- A prim composes with what the first layer says under its own path. -/
theorem exists_prim_shows (hroot : path.isRoot = false) (hplain : path.hasChoices = false)
    (h : stage.spec? 0 path = some spec) :
    ∃ prim, stage.prim? path = some prim ∧ prim.Shows spec := by
  obtain ⟨prim, hprim⟩ := Option.isSome_iff_exists.mp (has_prim_of_spec hroot hplain h)
  have hfirst : prim.StrongestFirst path (gather stage.layers path) := by
    rw [compose_eq_some hprim]
    exact ComposedPrim.strongest_first_of_spec path _
  obtain ⟨hplace, hspec⟩ := spec_eq_some_iff.mp h
  obtain ⟨first, others, hlayers⟩ := List.exists_cons_of_length_pos hplace
  simp only [hlayers, List.getElem_cons_zero] at hspec
  obtain ⟨weaker, hgather⟩ := gather_eq_cons_of_first hspec others
  rw [hlayers, hgather] at hfirst
  exact ⟨prim, hprim, hfirst.shows rfl⟩

variable {property : PropertyPath} {own : AttributeSpec} {composed : ComposedAttribute}

/-- An attribute composes with what the first layer says about it. -/
theorem exists_attribute_shows (hroot : property.prim.isRoot = false)
    (hplain : property.prim.hasChoices = false) (hname : isPropertyName property.name = true)
    (h : stage.attributeSpec? 0 property.prim property.name = some own) :
    ∃ composed, stage.attribute? property = some composed ∧ composed.Shows own := by
  obtain ⟨spec, hspec, hown⟩ := attribute_spec_eq_some_iff.mp h
  obtain ⟨prim, hprim, hshows⟩ := exists_prim_shows hroot hplain hspec
  obtain ⟨composed, hcomposed, hattribute⟩ := hshows.property _ _ hname hown
  exact ⟨composed, attribute_eq_some_iff.mpr ⟨prim, hprim, hcomposed⟩, hattribute⟩

/-- A composed attribute shows what the first layer says about it. -/
theorem attribute_shows (h : stage.attribute? property = some composed)
    (hown : stage.attributeSpec? 0 property.prim property.name = some own) :
    composed.Shows own := by
  obtain ⟨hroot, hplain, hname⟩ := proper_of_attribute (Option.isSome_of_eq_some h)
  obtain ⟨found, hfound, hshows⟩ := exists_attribute_shows hroot hplain hname hown
  rw [h] at hfound
  exact Option.some.inj hfound ▸ hshows

/-! ## Writing to the first layer -/

section Written

variable {specifier : Specifier} {change : PrimSpec → PrimSpec}
  {changeOwn : AttributeSpec → AttributeSpec} {declared : AttributeSpec}

/-- A change of the first layer's spec on a prim is shown by the prim. -/
theorem exists_prim_shows_changed (hroot : path.isRoot = false) (hplain : path.hasChoices = false)
    (hlayers : 0 < stage.layers.length) :
    ∃ before prim, (stage.changed 0 path specifier change).prim? path = some prim ∧
      prim.Shows (change before) := by
  have hspec := @spec_changed stage 0 path specifier change hlayers 0 path
  rw [if_pos ⟨rfl, rfl⟩] at hspec
  obtain ⟨prim, hprim, hshows⟩ := exists_prim_shows hroot hplain hspec
  exact ⟨_, prim, hprim, hshows⟩

/-- A change of what the first layer says about a declared attribute is shown by the attribute. -/
theorem exists_attribute_shows_changed (h : stage.attribute? property = some composed)
    (hlayers : 0 < stage.layers.length) :
    ∃ after, (stage.changed 0 property.prim .override fun spec =>
        spec.changeAttribute property.name declared changeOwn).attribute? property = some after ∧
      after.Shows (changeOwn ((stage.attributeSpec? 0 property.prim property.name).getD
        declared)) := by
  obtain ⟨hroot, hplain, hname⟩ := proper_of_attribute (Option.isSome_of_eq_some h)
  refine exists_attribute_shows hroot hplain hname ?_
  rw [attribute_spec_changed hlayers, if_pos ⟨rfl, rfl, rfl⟩]

end Written

/-- A value is set where the attribute has been declared if that was needed. -/
theorem exists_of_run_assign {value : Value}
    (h : (Attribute.assign property value).run stage = .ok () later) :
    ∃ between : Stage, between.target = stage.target ∧
      (Edit.setDefault property value).run between = .ok () later := by
  rw [Attribute.assign, Edit.run_bind_eq_ok] at h
  simp only [Edit.run_get_eq_ok] at h
  obtain ⟨_, _, ⟨rfl, rfl⟩, h⟩ := h
  split at h
  next =>
    obtain ⟨_, between, hcreate, h⟩ := Edit.run_bind_eq_ok.mp h
    obtain ⟨-, -, -, rfl⟩ := changed_of_run_create hcreate
    exact ⟨_, target_changed, h⟩
  next => exact ⟨stage, rfl, h⟩

/-- Connections that the first layer authors are the composed ones, so that adding to them is adding
to what composes. -/
theorem first_connections_eq (h : stage.attribute? property = some composed) :
    ((stage.attributeSpec? 0 property.prim property.name).getD
      (.declare composed.type composed.custom)).connections.getD composed.connections =
        composed.connections := by
  cases hown : stage.attributeSpec? 0 property.prim property.name with
  | none => rfl
  | some own =>
      rw [Option.getD_some]
      cases hsources : own.connections with
      | none => rfl
      | some sources => exact ((attribute_shows h hown).connections sources hsources).symm

/-! ## Reading back -/

section ReadBack

variable (htarget : stage.target = .ofLayer 0)

include htarget

theorem type_name_of_run_define {typeName : String}
    (h : (Edit.definePrim path (some typeName)).run stage = .ok () later) :
    ∃ prim, later.prim? path = some prim ∧ prim.typeName = some typeName := by
  obtain ⟨hroot, hplain, between, hsame, hlayer, rfl⟩ := changed_of_run_define h
  rw [hsame, htarget] at hlayer ⊢
  obtain ⟨before, prim, hprim, hshows⟩ := exists_prim_shows_changed hroot hplain hlayer
  exact ⟨prim, hprim, hshows.type_name typeName rfl⟩

theorem default_of_run_set_default {value : Value}
    (h : (Edit.setDefault property value).run stage = .ok () later) :
    ∃ composed, later.attribute? property = some composed ∧ composed.default = some value := by
  obtain ⟨before, hbefore, -, hlayer, rfl⟩ := Edit.run_set_default_eq_ok.mp h
  rw [htarget] at hlayer ⊢
  obtain ⟨composed, hcomposed, hshows⟩ := exists_attribute_shows_changed hbefore hlayer
  exact ⟨composed, hcomposed, hshows.default value rfl⟩

theorem value_of_run_assign {value : Value}
    (h : (Attribute.assign property value).run stage = .ok () later) :
    Attribute.value? later property = some value := by
  obtain ⟨between, hsame, h⟩ := exists_of_run_assign h
  obtain ⟨composed, hcomposed, hdefault⟩ := default_of_run_set_default (hsame.trans htarget) h
  simp [Attribute.value?, hcomposed, hdefault]

theorem connections_of_run_set_connections {sources : List PropertyPath}
    (h : (Edit.setConnections property sources).run stage = .ok () later) :
    ∃ composed, later.attribute? property = some composed ∧ composed.connections = sources := by
  obtain ⟨before, hbefore, -, hlayer, rfl⟩ := Edit.run_set_connections_eq_ok.mp h
  rw [htarget] at hlayer ⊢
  obtain ⟨composed, hcomposed, hshows⟩ := exists_attribute_shows_changed hbefore hlayer
  exact ⟨composed, hcomposed, hshows.connections sources rfl⟩

theorem connections_of_run_add_connection {source : PropertyPath}
    (h : (Edit.addConnection property source).run stage = .ok () later) :
    ∃ before composed, stage.attribute? property = some before ∧
      later.attribute? property = some composed ∧
      composed.connections = before.connections.filter (· ≠ source) ++ [source] := by
  obtain ⟨before, hbefore, -, hlayer, rfl⟩ := Edit.run_add_connection_eq_ok.mp h
  rw [htarget] at hlayer ⊢
  obtain ⟨composed, hcomposed, hshows⟩ := exists_attribute_shows_changed hbefore hlayer
  refine ⟨before, composed, hbefore, hcomposed, ?_⟩
  rw [hshows.connections _ rfl, first_connections_eq hbefore]

theorem mem_references_of_run_add_reference {source : PrimPath}
    (h : (Edit.addReference path source).run stage = .ok () later) :
    ∃ prim, later.prim? path = some prim ∧ source ∈ prim.references := by
  obtain ⟨-, hbefore, hlayer, rfl⟩ := Edit.run_add_reference_eq_ok.mp h
  obtain ⟨hroot, hplain, -⟩ := compose_is_some_iff.mp hbefore
  rw [htarget] at hlayer ⊢
  obtain ⟨before, prim, hprim, hshows⟩ := exists_prim_shows_changed hroot hplain hlayer
  exact ⟨prim, hprim, hshows.references source (mem_addNew.mpr (.inr rfl))⟩

theorem specializes_of_run_set_specializes {sources : List PrimPath}
    (h : (Edit.setSpecializes path sources).run stage = .ok () later) :
    ∃ prim, later.prim? path = some prim ∧ prim.specializes = sources := by
  obtain ⟨-, hbefore, hlayer, rfl⟩ := Edit.run_set_specializes_eq_ok.mp h
  obtain ⟨hroot, hplain, -⟩ := compose_is_some_iff.mp hbefore
  rw [htarget] at hlayer ⊢
  obtain ⟨before, prim, hprim, hshows⟩ := exists_prim_shows_changed hroot hplain hlayer
  exact ⟨prim, hprim, hshows.specializes sources rfl⟩

theorem has_variant_of_run_add_variant {choice : VariantChoice}
    (h : (Edit.addVariant path choice).run stage = .ok () later) :
    VariantSet.hasVariant later path choice = true := by
  obtain ⟨-, -, hbefore, hlayer, rfl⟩ := Edit.run_add_variant_eq_ok.mp h
  obtain ⟨hroot, hplain, -⟩ := compose_is_some_iff.mp hbefore
  rw [htarget] at hlayer ⊢
  obtain ⟨spec, hspec, hdeclares⟩ := @exists_spec_declares stage 0 path .override choice hlayer
  exact VariantSet.has_variant_of_declared_at hroot hplain
    ⟨spec, mem_specs_at.mpr ⟨0, hspec⟩, hdeclares⟩

end ReadBack

/-- What is written plainly to the first layer is read back. On every stage, whatever weaker layers,
selections, references and cycles there are, an operation that succeeds has its effect on the
composed scene right afterwards: the prim has the type, the attribute the value and the connections,
of which an added one is the last, and the prim has the reference, specializes the prims and
declares the variant. -/
theorem writes_read_back (htarget : stage.target = .ofLayer 0) :
    (∀ path typeName later, (Edit.definePrim path (some typeName)).run stage = .ok () later →
        ∃ prim, later.prim? path = some prim ∧ prim.typeName = some typeName) ∧
      (∀ path value later, (Attribute.assign path value).run stage = .ok () later →
        Attribute.value? later path = some value) ∧
      (∀ path sources later, (Edit.setConnections path sources).run stage = .ok () later →
        ∃ composed, later.attribute? path = some composed ∧ composed.connections = sources) ∧
      (∀ path source later, (Edit.addConnection path source).run stage = .ok () later →
        ∃ before composed, stage.attribute? path = some before ∧
          later.attribute? path = some composed ∧
          composed.connections = before.connections.filter (· ≠ source) ++ [source] ∧
          composed.lastConnection? = some source) ∧
      (∀ path source later, (Edit.addReference path source).run stage = .ok () later →
        ∃ prim, later.prim? path = some prim ∧ source ∈ prim.references) ∧
      (∀ path sources later, (Edit.setSpecializes path sources).run stage = .ok () later →
        ∃ prim, later.prim? path = some prim ∧ prim.specializes = sources) ∧
      ∀ path choice later, (Edit.addVariant path choice).run stage = .ok () later →
        VariantSet.hasVariant later path choice = true := by
  refine ⟨fun _ _ _ => type_name_of_run_define htarget,
    fun _ _ _ => value_of_run_assign htarget,
    fun _ _ _ => connections_of_run_set_connections htarget, ?_,
    fun _ _ _ => mem_references_of_run_add_reference htarget,
    fun _ _ _ => specializes_of_run_set_specializes htarget,
    fun _ _ _ => has_variant_of_run_add_variant htarget⟩
  intro path source later h
  obtain ⟨before, composed, hbefore, hcomposed, hconnections⟩ :=
    connections_of_run_add_connection htarget h
  refine ⟨before, composed, hbefore, hcomposed, hconnections, ?_⟩
  rw [ComposedAttribute.lastConnection?, hconnections, List.getLast?_concat]

/-- Two prims that refer to each other. The first layer leaves the connections of an attribute to
the weak one, which also gives the prim a type, a value, a specialized prim and a selection. -/
def contested : Stage :=
  .ofLayers [
    ⟨"strong", .ofList [
      (⟨[.plain "P"]⟩, { PrimSpec.blank .define with
        references := [⟨[.plain "Q"]⟩]
        attributes := .ofList [("x", ⟨.bool, none, none, true⟩)] }),
      (⟨[.plain "Q"]⟩, { PrimSpec.blank .define with
        typeName := some "Other"
        references := [⟨[.plain "P"]⟩]
        attributes := .ofList [("x", ⟨.bool, none, some [], true⟩)] })]⟩,
    ⟨"weak", .ofList [
      (⟨[.plain "P"]⟩, { PrimSpec.blank .define with
        typeName := some "Other"
        attributes := .ofList [("x", ⟨.bool, some (.bool false),
          some [⟨⟨[.plain "Q"]⟩, "x"⟩, ⟨⟨[.plain "P"]⟩, "y"⟩], true⟩)]
        specializes := some [⟨[.plain "Q"]⟩]
        variantSets := [⟨"s", ["w"]⟩]
        variantSelection := .ofList [("s", "w")] })]⟩]

/-- Each of the operations succeeds there and is read back. -/
theorem contested_writes_read_back :
    (∃ prim, (contested.after (Edit.definePrim ⟨[.plain "P"]⟩ (some "T"))).prim? ⟨[.plain "P"]⟩ =
        some prim ∧ prim.typeName = some "T") ∧
      Attribute.value? (contested.after (Attribute.assign ⟨⟨[.plain "P"]⟩, "x"⟩ (.bool true)))
        ⟨⟨[.plain "P"]⟩, "x"⟩ = some (.bool true) ∧
      (∃ composed, (contested.after (Edit.setConnections ⟨⟨[.plain "P"]⟩, "x"⟩ [])).attribute?
        ⟨⟨[.plain "P"]⟩, "x"⟩ = some composed ∧ composed.connections = []) ∧
      (∃ composed, (contested.after (Edit.addConnection ⟨⟨[.plain "P"]⟩, "x"⟩
          ⟨⟨[.plain "Q"]⟩, "x"⟩)).attribute? ⟨⟨[.plain "P"]⟩, "x"⟩ = some composed ∧
        composed.lastConnection? = some ⟨⟨[.plain "Q"]⟩, "x"⟩) ∧
      (∃ prim, (contested.after (Edit.addReference ⟨[.plain "P"]⟩ ⟨[.plain "P"]⟩)).prim?
        ⟨[.plain "P"]⟩ = some prim ∧ ⟨[.plain "P"]⟩ ∈ prim.references) ∧
      (∃ prim, (contested.after (Edit.setSpecializes ⟨[.plain "P"]⟩ [])).prim? ⟨[.plain "P"]⟩ =
        some prim ∧ prim.specializes = []) ∧
      VariantSet.hasVariant (contested.after (Edit.addVariant ⟨[.plain "P"]⟩ ⟨"s", "v"⟩))
        ⟨[.plain "P"]⟩ ⟨"s", "v"⟩ = true := by
  obtain ⟨hdefine, hassign, hset, hadd, hrefer, hspecialize, hvariant⟩ :=
    @writes_read_back contested (by decide)
  obtain ⟨-, composed, -, hcomposed, -, hlast⟩ :=
    hadd ⟨⟨[.plain "P"]⟩, "x"⟩ ⟨⟨[.plain "Q"]⟩, "x"⟩ _ (Edit.run_eq_ok_after (by decide))
  exact ⟨hdefine _ _ _ (Edit.run_eq_ok_after (by decide)),
    hassign _ _ _ (Edit.run_eq_ok_after (by decide)),
    hset _ _ _ (Edit.run_eq_ok_after (by decide)), ⟨composed, hcomposed, hlast⟩,
    hrefer _ _ _ (Edit.run_eq_ok_after (by decide)),
    hspecialize _ _ _ (Edit.run_eq_ok_after (by decide)),
    hvariant _ _ _ (Edit.run_eq_ok_after (by decide))⟩

end Stage

end LayeredShading
