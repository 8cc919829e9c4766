import LayeredShading.Proofs.Composition.SourceOverlay
import LayeredShading.Proofs.Network.Resolution

/-!
# Mirrors

A prim mirrors another one if it and the prims below it have the types and the attributes of the
other, with the connections moved. Walks along connections from the two then run in parallel: each
step of one is the step of the other moved (`lead_moved`), until they leave the mirrored prims and
are the same. So both resolve, or neither does (`follow_mirrored`), and since distances from the
shader are kept it does not matter where a walk is cut because it comes back.
-/

namespace LayeredShading

/-- The types and attributes of prims below `source` are found at the same places below `target`,
with the connections moved. -/
structure Mirrors (stage : Stage) (source target : PrimPath) : Prop where
  source_plain : source.hasChoices = false
  target_plain : target.hasChoices = false
  type_name : ∀ names, (stage.prim? (target.descend names)).bind (·.typeName) =
    (stage.prim? (source.descend names)).bind (·.typeName)
  attribute_type : ∀ names name, (stage.attribute? ⟨target.descend names, name⟩).map (·.type) =
    (stage.attribute? ⟨source.descend names, name⟩).map (·.type)
  connections : ∀ names name, connectionsOf (stage.prim? (target.descend names)) name =
    (connectionsOf (stage.prim? (source.descend names)) name).map (·.moved source target)

/-- The lead with its path moved. -/
def Lead.moved (lead : Lead) (source target : PrimPath) : Lead :=
  match lead with
  | .shader found => .shader { found with shader := found.shader.moved source target }
  | .through path => .through (path.moved source target)

/-- A shader output is the same as another, or the same but for its shader being moved. -/
structure ShaderOutput.Mirrored (source target : PrimPath) (found sought : ShaderOutput) :
    Prop where
  output_eq : found.output = sought.output
  type_eq : found.type = sought.type
  shader_eq : found.shader = sought.shader ∨
    sought.shader.relocate? source target = some found.shader

theorem ShaderOutput.Mirrored.refl (source target : PrimPath) (found : ShaderOutput) :
    Mirrored source target found found :=
  ⟨rfl, rfl, .inl rfl⟩

/-- Moving the shader mirrors an output. -/
theorem ShaderOutput.mirrored_moved (source target : PrimPath) (sought : ShaderOutput) :
    Mirrored source target { sought with shader := sought.shader.moved source target } sought := by
  refine ⟨rfl, rfl, ?_⟩
  unfold PrimPath.moved
  cases sought.shader.relocate? source target with
  | none => exact .inl rfl
  | some shader => exact .inr rfl

namespace Stage

variable {stage : Stage}

/-- A path with choices is no prim of the composed scene. -/
theorem prim_eq_none_of_choices {path : PrimPath} (h : path.hasChoices = true) :
    stage.prim? path = none := by
  simp [prim?, compose, h]

/-- Where a connection leads that goes to a property. -/
def destination? (stage : Stage) (path : PropertyPath) : Option Lead := do
  let name ← Text.dropLead? outputsNamespace path.name
  let type ← (stage.attribute? path).map (·.type)
  let typeName ← (stage.prim? path.prim).bind (·.typeName)
  if typeName = shaderType then some (.shader ⟨path.prim, name, type⟩)
  else if typeName = nodeGraphType ∨ typeName = materialType then some (.through path)
  else none

/-- An output leads where its last connection leads. -/
theorem lead_eq (output : PropertyPath) :
    stage.lead? output =
      (connectionsOf (stage.prim? output.prim) output.name).getLast?.bind stage.destination? := by
  have hlast : (stage.attribute? output).bind (·.lastConnection?) =
      (connectionsOf (stage.prim? output.prim) output.name).getLast? := by
    rw [connectionsOf, attribute?, Option.bind_eq_bind]
    cases (stage.prim? output.prim).bind (·.attribute? output.name) <;> rfl
  have hdestination : ∀ path : PropertyPath, stage.destination? path = (do
      let name ← Text.dropLead? outputsNamespace path.name
      let prim ← stage.prim? path.prim
      let composed ← prim.attribute? path.name
      if prim.isA shaderType then some (.shader ⟨path.prim, name, composed.type⟩)
      else if prim.isA nodeGraphType || prim.isA materialType then some (.through path)
      else none) := by
    intro path
    rw [destination?, attribute?]
    cases Text.dropLead? outputsNamespace path.name with
    | none => rfl
    | some name =>
        cases stage.prim? path.prim with
        | none => rfl
        | some prim =>
            cases hattribute : prim.attribute? path.name with
            | none => simp [hattribute]
            | some composed =>
                cases htype : prim.typeName <;> simp [hattribute, htype, ComposedPrim.isA]
  rw [← hlast, Option.bind_assoc, funext hdestination]
  rfl

end Stage

namespace Mirrors

open Stage

variable {stage : Stage} {source target : PrimPath}

/-- Only a property name is the name of an attribute. -/
theorem attribute_eq_none {prim : PrimPath} {name : String} (h : ¬isPropertyName name = true) :
    stage.attribute? ⟨prim, name⟩ = none := by
  by_contra hne
  exact h (exists_spec_of_attribute (Option.isSome_iff_ne_none.mpr hne)).1

/-- Prims mirror those that they overlay with opinions that give no types and attributes. -/
theorem of_overlays {own : List String → List Opinion} (hsource : source.hasChoices = false)
    (htarget : target.hasChoices = false)
    (h : ∀ names, Overlays (own names) source target (stage.prim? (source.descend names))
      (stage.prim? (target.descend names)))
    (hmute : ∀ names, ∀ opinion ∈ own names,
      opinion.spec.typeName = none ∧ opinion.spec.attributes = .empty) :
    Mirrors stage source target := by
  have hattributes : ∀ names {β : Type} (field : AttributeSpec → Option β) (name : String),
      ((own names).findSome? fun opinion => (opinion.spec.attributes.get? name).bind field) =
        none := by
    intro names β field name
    rw [List.findSome?_eq_none_iff]
    intro opinion hopinion
    rw [(hmute names opinion hopinion).2, SortedMap.get?_empty, Option.bind_none]
  refine ⟨hsource, htarget, ?_, ?_, ?_⟩
  · intro names
    have hnone : (own names).findSome? (·.spec.typeName) = none :=
      List.findSome?_eq_none_iff.mpr fun opinion hopinion => (hmute names opinion hopinion).1
    rw [(h names).type_name, hnone, Option.none_or]
  · intro names name
    -- Other names have no attribute at either place.
    by_cases hname : isPropertyName name = true
    · have htype := (h names).attribute_type name hname
      simp only [Option.map_eq_bind] at htype ⊢
      rw [hattributes, Option.none_or] at htype
      exact htype
    · rw [attribute_eq_none hname, attribute_eq_none hname]
  · intro names name
    by_cases hname : isPropertyName name = true
    · rw [(h names).connections name hname, hattributes, Option.getD_none]
    · have hnone : ∀ prim, connectionsOf (stage.prim? prim) name = [] := by
        intro prim
        have habsent : stage.attribute? ⟨prim, name⟩ = none := attribute_eq_none hname
        rw [attribute?, Option.bind_eq_bind] at habsent
        rw [connectionsOf, habsent]
        rfl
      rw [hnone, hnone, List.map_nil]

/-! ## Moving along -/

/-- Below the source a path is that of a prim reached by names, or there is no prim at it nor where
it is moved. -/
theorem reached_or_absent (h : Mirrors stage source target) {path : PrimPath}
    (hunder : path.isUnder source = true) :
    (∃ names, path = source.descend names ∧ path.moved source target = target.descend names) ∨
      stage.prim? path = none ∧ stage.prim? (path.moved source target) = none := by
  obtain ⟨rest, rfl⟩ := PrimPath.is_under_iff.mp hunder
  rw [PrimPath.moved_append]
  by_cases hchoices : (source.append rest).hasChoices = true
  · have htarget : (target.append rest).hasChoices = true := by
      simpa [h.source_plain, h.target_plain] using hchoices
    exact .inr ⟨prim_eq_none_of_choices hchoices, prim_eq_none_of_choices htarget⟩
  · have hsourcePlain : (source.append rest).hasChoices = false := by simpa using hchoices
    have htargetPlain : (target.append rest).hasChoices = false := by
      simpa [h.source_plain, h.target_plain] using hsourcePlain
    exact .inl ⟨rest.map (·.name), PrimPath.append_eq_descend hsourcePlain,
      PrimPath.append_eq_descend htargetPlain⟩

/-- A prim and the prim at its moved path have the same type. -/
theorem type_name_moved (h : Mirrors stage source target) (path : PrimPath) :
    (stage.prim? (path.moved source target)).bind (·.typeName) =
      (stage.prim? path).bind (·.typeName) := by
  by_cases hunder : path.isUnder source = true
  · rcases h.reached_or_absent hunder with ⟨names, hpath, hmoved⟩ | ⟨hpath, hmoved⟩
    · rw [hmoved, h.type_name, ← hpath]
    · rw [hmoved, hpath]
  · rw [PrimPath.moved_eq_self (by simpa using hunder)]

/-- An attribute and the one at its moved path have the same type. -/
theorem attribute_type_moved (h : Mirrors stage source target) (path : PropertyPath) :
    (stage.attribute? (path.moved source target)).map (·.type) =
      (stage.attribute? path).map (·.type) := by
  obtain ⟨prim, name⟩ := path
  show (stage.attribute? ⟨prim.moved source target, name⟩).map (·.type) = _
  by_cases hunder : prim.isUnder source = true
  · rcases h.reached_or_absent hunder with ⟨names, hpath, hmoved⟩ | ⟨hpath, hmoved⟩
    · rw [hmoved, h.attribute_type, ← hpath]
    · simp [attribute?, hpath, hmoved]
  · rw [PrimPath.moved_eq_self (by simpa using hunder)]

/-- What leads from a moved output leads where it leads from the output, moved. -/
theorem destination_moved (h : Mirrors stage source target) (path : PropertyPath) :
    stage.destination? (path.moved source target) =
      (stage.destination? path).map (·.moved source target) := by
  have htype : (stage.prim? (path.moved source target).prim).bind (·.typeName) =
      (stage.prim? path.prim).bind (·.typeName) := h.type_name_moved path.prim
  have hname : (path.moved source target).name = path.name := rfl
  rw [destination?, destination?, h.attribute_type_moved path, htype, hname]
  cases Text.dropLead? outputsNamespace path.name with
  | none => rfl
  | some name =>
      cases (stage.attribute? path).map (·.type) with
      | none => rfl
      | some type =>
          cases (stage.prim? path.prim).bind (·.typeName) with
          | none => rfl
          | some typeName =>
              simp only [Option.bind_eq_bind, Option.bind_some]
              by_cases hshader : typeName = shaderType
              · rw [if_pos hshader, if_pos hshader]
                rfl
              · rw [if_neg hshader, if_neg hshader]
                split <;> rfl

/-- A moved output leads where the output leads, moved. -/
theorem lead_moved (h : Mirrors stage source target) {output : PropertyPath}
    (hunder : output.prim.isUnder source = true) :
    stage.lead? (output.moved source target) =
      (stage.lead? output).map (·.moved source target) := by
  have hconnections :
      connectionsOf (stage.prim? (output.moved source target).prim) output.name =
        (connectionsOf (stage.prim? output.prim) output.name).map (·.moved source target) := by
    show connectionsOf (stage.prim? (output.prim.moved source target)) output.name = _
    rcases h.reached_or_absent hunder with ⟨names, hpath, hmoved⟩ | ⟨hpath, hmoved⟩
    · rw [hmoved, h.connections, ← hpath]
    · simp [connectionsOf, hpath, hmoved]
  have hname : (output.moved source target).name = output.name := rfl
  rw [lead_eq, lead_eq, hname, hconnections, List.getLast?_map]
  cases (connectionsOf (stage.prim? output.prim) output.name).getLast? with
  | none => rfl
  | some path => exact h.destination_moved path

/-- An output that is not below the source is not moved. -/
theorem moved_eq_self {output : PropertyPath} (h : output.prim.isUnder source = false) :
    output.moved source target = output := by
  rw [PropertyPath.moved, PrimPath.moved_eq_self h]
  rfl

/-- From a moved output a shader output is found at the same distance as from the output. -/
theorem exists_leads_in_moved (h : Mirrors stage source target) {output : PropertyPath}
    {sought : ShaderOutput} {distance : Nat} (hleads : stage.LeadsIn sought distance output) :
    ∃ found, stage.LeadsIn found distance (output.moved source target) ∧
      found.Mirrored source target sought := by
  induction hleads with
  | @arrived output hlead =>
      by_cases hunder : output.prim.isUnder source = true
      · refine ⟨{ sought with shader := sought.shader.moved source target }, .arrived ?_,
          ShaderOutput.mirrored_moved source target sought⟩
        rw [h.lead_moved hunder, hlead]
        rfl
      · rw [moved_eq_self (by simpa using hunder)]
        exact ⟨sought, .arrived hlead, .refl source target sought⟩
  | @passed output next distance hlead hrest ih =>
      -- Away from the source the walk is the same from here on, even if it comes back below it.
      by_cases hunder : output.prim.isUnder source = true
      · obtain ⟨found, hfound, hmirrored⟩ := ih
        refine ⟨found, .passed ?_ hfound, hmirrored⟩
        rw [h.lead_moved hunder, hlead]
        rfl
      · rw [moved_eq_self (by simpa using hunder)]
        exact ⟨sought, .passed hlead hrest, .refl source target sought⟩

/-- What is found from a moved output is found from the output, too. -/
theorem exists_leads_in_of_moved (h : Mirrors stage source target) {output : PropertyPath}
    {found : ShaderOutput} {distance : Nat}
    (hleads : stage.LeadsIn found distance (output.moved source target)) :
    ∃ sought, stage.LeadsIn sought distance output := by
  induction distance generalizing output with
  | zero =>
      by_cases hunder : output.prim.isUnder source = true
      · cases hleads with
        | arrived hlead =>
            rw [h.lead_moved hunder, Option.map_eq_some_iff] at hlead
            obtain ⟨lead, hlead, hmoved⟩ := hlead
            cases lead with
            | shader sought => exact ⟨sought, .arrived hlead⟩
            | through next => cases hmoved
      · rw [moved_eq_self (by simpa using hunder)] at hleads
        exact ⟨found, hleads⟩
  | succ distance ih =>
      by_cases hunder : output.prim.isUnder source = true
      · cases hleads with
        | passed hlead hrest =>
            rw [h.lead_moved hunder, Option.map_eq_some_iff] at hlead
            obtain ⟨lead, hlead, hmoved⟩ := hlead
            cases lead with
            | shader sought => cases hmoved
            | through next =>
                cases hmoved
                obtain ⟨sought, hsought⟩ := ih hrest
                exact ⟨sought, .passed hlead hsought⟩
      · rw [moved_eq_self (by simpa using hunder)] at hleads
        exact ⟨found, hleads⟩

/-- Following connections from a moved output finds a shader output exactly if following them from
the output does, and then the same or its mirror. -/
theorem follow_mirrored (h : Mirrors stage source target) (output : PropertyPath) :
    Option.Rel (ShaderOutput.Mirrored source target)
      (stage.follow (output.moved source target)) (stage.follow output) := by
  cases hsought : stage.follow output with
  | none =>
      cases hfound : stage.follow (output.moved source target) with
      | none => exact .none
      | some found =>
          obtain ⟨distance, hleads⟩ :=
            resolves_iff_exists_leads_in.mp (follow_eq_some_iff.mp hfound)
          obtain ⟨sought, hleads⟩ := h.exists_leads_in_of_moved hleads
          rw [follow_eq_some_iff.mpr (resolves_iff_exists_leads_in.mpr ⟨distance, hleads⟩)]
            at hsought
          cases hsought
  | some sought =>
      obtain ⟨distance, hleads⟩ := resolves_iff_exists_leads_in.mp (follow_eq_some_iff.mp hsought)
      obtain ⟨found, hleads, hmirrored⟩ := h.exists_leads_in_moved hleads
      rw [follow_eq_some_iff.mpr (resolves_iff_exists_leads_in.mpr ⟨distance, hleads⟩)]
      exact .some hmirrored

/-- First answers are related where all answers are. -/
theorem rel_find_some {α β γ : Type} {related : β → γ → Prop} {first : α → Option β}
    {second : α → Option γ} (h : ∀ element, Option.Rel related (first element) (second element))
    (list : List α) : Option.Rel related (list.findSome? first) (list.findSome? second) := by
  induction list with
  | nil => exact .none
  | cons element rest ih =>
      have hrel := h element
      rw [List.findSome?_cons, List.findSome?_cons]
      revert hrel
      generalize first element = found
      generalize second element = sought
      intro hrel
      cases hrel with
      | none => exact ih
      | some hrelated => exact .some hrelated

/-- A terminal resolves on a mirror exactly if it resolves on the source, and then to the same
shader output or its mirror. -/
theorem resolve_mirrored (h : Mirrors stage source target) (kind : TerminalKind)
    (contexts : List String) :
    Option.Rel (ShaderOutput.Mirrored source target)
      (Material.resolve stage target kind contexts)
      (Material.resolve stage source kind contexts) := by
  have hanswer : ∀ context, Option.Rel (ShaderOutput.Mirrored source target)
      ((Material.terminalOutput? stage target kind context).bind stage.follow)
      ((Material.terminalOutput? stage source kind context).bind stage.follow) := by
    intro context
    have hmoved : Material.terminalPath target kind context =
        (Material.terminalPath source kind context).moved source target := by
      have hself : source.moved source target = target := by
        simpa using PrimPath.moved_append source target []
      show _ = (⟨source.moved source target, _⟩ : PropertyPath)
      rw [hself]
      rfl
    have hdeclared : (stage.attribute? (Material.terminalPath target kind context)).isSome =
        (stage.attribute? (Material.terminalPath source kind context)).isSome := by
      rw [hmoved, ← Option.isSome_map, h.attribute_type_moved, Option.isSome_map]
    rw [Material.terminal_output_eq, Material.terminal_output_eq, hdeclared]
    split
    · rw [Option.bind_some, Option.bind_some, hmoved]
      exact h.follow_mirrored _
    · exact .none
  exact rel_find_some hanswer (Material.contextsTried contexts)

end Mirrors

end LayeredShading
