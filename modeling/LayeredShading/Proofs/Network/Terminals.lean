import LayeredShading.Proofs.Network.Resolution

/-!
# Terminal outputs

The name of a terminal output carries a terminal and a render context, and it loses nothing: a name
splits into a terminal and a context exactly if it is the output name of these, whatever text the
context is (`TerminalKind.split_output_name_eq_some_iff`). The outputs of a prim are listed by a
scan of its sorted attribute names. Names with a common lead stand next to each other
(`Text.starts_with_of_between`), so the scan misses none of them
(`ComposedPrim.attributes_under_eq`), and what it lists is what can be looked up
(`Material.terminal_outputs_by_context`).
-/

namespace LayeredShading

/-! ## Names in order -/

namespace Text

variable {lead middle text : String}

theorem starts_with_iff : startsWith lead text = true ↔ lead.toList <+: text.toList := by
  simp [startsWith]

/-- Texts are in the order of their characters. -/
theorem compare_eq_lt_iff : compare middle text = .lt ↔ middle.toList < text.toList :=
  compareOfLessAndEq_eq_lt.trans String.lt_iff

/-- A text does not come before its lead. -/
theorem not_lt_of_starts_with (h : startsWith lead text = true) : compare text lead ≠ .lt := by
  rw [Ne, compare_eq_lt_iff, List.not_lt]
  exact (starts_with_iff.mp h).le

/-- A list between another one and a continuation of that is itself a continuation of it. -/
theorem prefix_of_between {front between rest : List Char} (hlow : ¬ between < front)
    (hhigh : between < front ++ rest) : front <+: between := by
  induction front generalizing between with
  | nil => exact List.nil_prefix
  | cons char front ih =>
      cases between with
      | nil => exact absurd (List.nil_lt_cons char front) hlow
      | cons first between =>
          rw [List.cons_lt_cons_iff, not_or, not_and] at hlow
          rw [List.cons_append, List.cons_lt_cons_iff] at hhigh
          rcases hhigh with hless | ⟨rfl, hhigh⟩
          · exact absurd hless hlow.1
          · exact (List.prefix_cons_inj first).mpr (ih (hlow.2 rfl) hhigh)

/-- A text between a lead and a text that starts with the lead starts with it, too. -/
theorem starts_with_of_between (hlow : compare middle lead ≠ .lt)
    (hhigh : compare middle text = .lt) (h : startsWith lead text = true) :
    startsWith lead middle = true := by
  obtain ⟨rest, hrest⟩ := starts_with_iff.mp h
  rw [Ne, compare_eq_lt_iff] at hlow
  rw [compare_eq_lt_iff, ← hrest] at hhigh
  exact starts_with_iff.mpr (prefix_of_between hlow hhigh)

end Text

namespace ComposedPrim

/-- The scan of the attributes under a lead finds all whose names start with it. -/
theorem attributes_under_eq (prim : ComposedPrim) (lead : String) :
    prim.attributesUnder lead =
      (prim.attributes.filterKeys (Text.startsWith lead)).entries.map (·.2) := by
  rw [attributesUnder, prim.attributes.takeWhile_entriesFrom]
  · exact fun _ => Text.not_lt_of_starts_with
  · exact fun _ _ => Text.starts_with_of_between

end ComposedPrim

/-! ## Names of terminal outputs -/

namespace TerminalKind

variable {kind : TerminalKind} {context : String}

theorem of_name_eq_some_iff {name : String} : ofName? name = some kind ↔ kind.name = name := by
  constructor
  · intro h
    simpa using List.find?_some h
  · rintro rfl
    cases kind <;> decide

theorem colon_not_mem_name (kind : TerminalKind) : ':' ∉ kind.name.toList := by
  cases kind <;> decide

theorem output_name_universal (kind : TerminalKind) :
    kind.outputName universalContext = outputsNamespace ++ kind.name :=
  if_pos rfl

theorem output_name_of_ne (h : context ≠ universalContext) :
    kind.outputName context = outputsNamespace ++ (context ++ ":" ++ kind.name) := by
  rw [outputName, if_neg h, String.append_assoc, String.append_assoc, String.append_assoc]

theorem starts_with_output_name (kind : TerminalKind) (context : String) :
    Text.startsWith outputsNamespace (kind.outputName context) = true := by
  rw [Text.starts_with_iff]
  by_cases huniversal : context = universalContext
  · simp [huniversal, output_name_universal]
  · simp [output_name_of_ne huniversal]

/-- A name splits into a terminal and a context exactly if it is their output name. -/
theorem split_output_name_eq_some_iff {name : String} :
    splitOutputName? name = some (kind, context) ↔ kind.outputName context = name := by
  rw [splitOutputName?, Option.bind_eq_bind, Option.bind_eq_some_iff]
  simp only [Text.dropLead?_eq_some_iff]
  constructor
  · rintro ⟨rest, rfl, hrest⟩
    split at hrest
    next found terminal hsplit =>
      obtain ⟨rfl, -⟩ := Text.splitAtLast?_eq_some_iff.mp hsplit
      split at hrest
      next => cases hrest
      next hcontext =>
        obtain ⟨_, hname, hparts⟩ := Option.map_eq_some_iff.mp hrest
        obtain ⟨rfl, rfl⟩ := Prod.mk.inj hparts
        have hother : found ≠ universalContext := by
          rintro rfl
          exact hcontext rfl
        rw [output_name_of_ne hother, of_name_eq_some_iff.mp hname]
        rfl
    next =>
      obtain ⟨_, hname, hparts⟩ := Option.map_eq_some_iff.mp hrest
      obtain ⟨rfl, rfl⟩ := Prod.mk.inj hparts
      rw [output_name_universal, of_name_eq_some_iff.mp hname]
  · rintro rfl
    have hname : ofName? kind.name = some kind := of_name_eq_some_iff.mpr rfl
    by_cases huniversal : context = universalContext
    · subst huniversal
      have hsplit := Text.splitAtLast?_eq_none_iff.mpr (colon_not_mem_name kind)
      refine ⟨kind.name, output_name_universal kind, ?_⟩
      rw [hsplit, hname, Option.map_some]
    · have hsplit : Text.splitAtLast? ':' (context ++ ":" ++ kind.name) =
          some (context, kind.name) :=
        Text.splitAtLast?_eq_some_iff.mpr ⟨rfl, colon_not_mem_name kind⟩
      have hcontext : context.isEmpty = false := by simpa [universalContext] using huniversal
      refine ⟨context ++ ":" ++ kind.name, output_name_of_ne huniversal, ?_⟩
      simp [hsplit, hcontext, hname]

/-- Outputs for different terminals or contexts have different names. -/
theorem output_name_injective {other : TerminalKind} {otherContext : String}
    (h : kind.outputName context = other.outputName otherContext) :
    kind = other ∧ context = otherContext := by
  have hsplit := split_output_name_eq_some_iff.mpr h
  rw [split_output_name_eq_some_iff.mpr rfl] at hsplit
  exact Prod.mk.inj (Option.some.inj hsplit.symm)

end TerminalKind

/-! ## Listed outputs -/

namespace Output

variable {stage : Stage} {prim : PrimPath}

/-- An attribute that composes has the path of its prim and the name that it is found under. -/
theorem path_of_mem_attributes {composed : ComposedPrim} (h : stage.prim? prim = some composed)
    {entry : String × ComposedAttribute} (hentry : entry ∈ composed.attributes.entries) :
    entry.2.path = ⟨prim, entry.1⟩ := by
  have hget := SortedMap.get?_eq_some_iff.mpr hentry
  have hspec := attribute_of_compose h entry.1
  rw [ComposedPrim.attribute?, hget] at hspec
  obtain ⟨_, -, hattribute⟩ := Option.map_eq_some_iff.mp hspec.symm
  rw [← hattribute]
  rfl

/-- The outputs of a prim are its attributes in the output namespace, by name. -/
theorem all_eq {composed : ComposedPrim} (h : stage.prim? prim = some composed) :
    all stage prim =
      (composed.attributes.filterKeys (Text.startsWith outputsNamespace)).keys.map
        (PropertyPath.mk prim) := by
  rw [all, h]
  show (composed.attributesUnder outputsNamespace).map (·.path) = _
  rw [ComposedPrim.attributes_under_eq, SortedMap.keys, List.map_map, List.map_map]
  refine List.map_congr_left fun entry hentry => ?_
  exact path_of_mem_attributes h (List.mem_of_mem_filter hentry)

/-- No output is listed twice. -/
theorem nodup_all (stage : Stage) (prim : PrimPath) : (all stage prim).Nodup := by
  cases hprim : stage.prim? prim with
  | none => simp [all, hprim]
  | some composed =>
      rw [all_eq hprim]
      exact (SortedMap.nodup_keys _).map fun _ _ hpath => (PropertyPath.mk.inj hpath).2

/-- The outputs of a prim are its declared attributes in the output namespace. -/
theorem mem_all_iff {output : PropertyPath} :
    output ∈ all stage prim ↔
      output.prim = prim ∧ Text.startsWith outputsNamespace output.name = true ∧
        (stage.attribute? output).isSome = true := by
  constructor
  · intro h
    cases hprim : stage.prim? prim with
    | none => simp [all, hprim] at h
    | some composed =>
        rw [all_eq hprim] at h
        obtain ⟨name, hname, rfl⟩ := List.mem_map.mp h
        obtain ⟨own, hattribute⟩ := SortedMap.mem_keys_iff.mp hname
        rw [SortedMap.get?_filterKeys, Option.ite_none_right_eq_some] at hattribute
        have hdeclared : stage.attribute? ⟨prim, name⟩ = some own :=
          Stage.attribute_eq_some_iff.mpr ⟨composed, hprim, hattribute.2⟩
        exact ⟨rfl, hattribute.1, Option.isSome_of_eq_some hdeclared⟩
  · rintro ⟨rfl, hlead, hdeclared⟩
    obtain ⟨own, hattribute⟩ := Option.isSome_iff_exists.mp hdeclared
    obtain ⟨composed, hprim, hget⟩ := Stage.attribute_eq_some_iff.mp hattribute
    rw [all_eq hprim]
    refine List.mem_map.mpr ⟨output.name, SortedMap.mem_keys_iff.mpr ⟨own, ?_⟩, rfl⟩
    rw [SortedMap.get?_filterKeys, if_pos hlead]
    exact hget

theorem terminal_and_context_iff {output : PropertyPath} {kind : TerminalKind} {context : String} :
    terminal? output = some kind ∧ context? output = some context ↔
      kind.outputName context = output.name := by
  rw [← TerminalKind.split_output_name_eq_some_iff, terminal?, context?]
  cases TerminalKind.splitOutputName? output.name <;> simp [Prod.ext_iff]

/-- An output is for a terminal if its name is that for some context. -/
theorem terminal_eq_some_iff {output : PropertyPath} {kind : TerminalKind} :
    terminal? output = some kind ↔ ∃ context, kind.outputName context = output.name := by
  rw [terminal?, Option.map_eq_some_iff]
  constructor
  · rintro ⟨⟨_, context⟩, hsplit, rfl⟩
    exact ⟨context, TerminalKind.split_output_name_eq_some_iff.mp hsplit⟩
  · rintro ⟨context, hname⟩
    exact ⟨(kind, context), TerminalKind.split_output_name_eq_some_iff.mpr hname, rfl⟩

end Output

namespace Material

variable {stage : Stage} {material : PrimPath} {kind : TerminalKind} {output : PropertyPath}

/-- The output for a terminal and a context is the declared attribute of that name. -/
theorem terminal_output_eq_some_iff {context : String} :
    terminalOutput? stage material kind context = some output ↔
      output = terminalPath material kind context ∧ (stage.attribute? output).isSome = true := by
  rw [terminal_output_eq, Option.ite_none_right_eq_some, Option.some.injEq]
  constructor
  · rintro ⟨hdeclared, rfl⟩
    exact ⟨rfl, hdeclared⟩
  · rintro ⟨rfl, hdeclared⟩
    exact ⟨hdeclared, rfl⟩

/-- The listed outputs for a terminal are those that are found for some context. -/
theorem mem_terminal_outputs_iff :
    output ∈ terminalOutputs stage material kind ↔
      ∃ context, terminalOutput? stage material kind context = some output := by
  simp only [terminalOutputs, List.mem_filter, beq_iff_eq, Output.mem_all_iff,
    Output.terminal_eq_some_iff, terminal_output_eq_some_iff]
  constructor
  · rintro ⟨⟨rfl, -, hdeclared⟩, context, hname⟩
    exact ⟨context, by rw [terminalPath, hname], hdeclared⟩
  · rintro ⟨context, rfl, hdeclared⟩
    exact ⟨⟨rfl, TerminalKind.starts_with_output_name kind context, hdeclared⟩, context, rfl⟩

/-- A terminal output is kept by its terminal and its context: the output name of every terminal
and context, which may be any text, splits into these, and a name that splits is the output name of
its parts, so different ones never share a name. On every stage, the outputs listed for a terminal
are those that are found for some context, each listed once and each with the terminal and the
context that it was found for. -/
theorem terminal_outputs_by_context :
    (∀ (kind : TerminalKind) (context : String),
        TerminalKind.splitOutputName? (kind.outputName context) = some (kind, context)) ∧
      (∀ (name : String) (kind : TerminalKind) (context : String),
        TerminalKind.splitOutputName? name = some (kind, context) →
          kind.outputName context = name) ∧
      (∀ (kind other : TerminalKind) (context otherContext : String),
        kind.outputName context = other.outputName otherContext →
          kind = other ∧ context = otherContext) ∧
      ∀ (stage : Stage) (material : PrimPath) (kind : TerminalKind),
        (terminalOutputs stage material kind).Nodup ∧
          (∀ output, output ∈ terminalOutputs stage material kind ↔
            ∃ context, terminalOutput? stage material kind context = some output) ∧
          ∀ context output, terminalOutput? stage material kind context = some output →
            Output.terminal? output = some kind ∧ Output.context? output = some context := by
  refine ⟨fun kind context => TerminalKind.split_output_name_eq_some_iff.mpr rfl,
    fun name kind context => TerminalKind.split_output_name_eq_some_iff.mp,
    fun kind other context otherContext => TerminalKind.output_name_injective,
    fun stage material kind => ⟨?_, fun output => mem_terminal_outputs_iff, ?_⟩⟩
  · exact (Output.nodup_all stage material).filter _
  · intro context output houtput
    obtain ⟨rfl, -⟩ := terminal_output_eq_some_iff.mp houtput
    exact Output.terminal_and_context_iff.mpr rfl

/-- A material with an output for the context of another terminal's name, and one that is for no
terminal. Its base adds outputs for the universal context and for one whose name holds a colon. -/
def shadedByBase : Stage :=
  .ofLayers [⟨"look", .ofList [
    (⟨[.plain "M"]⟩, { PrimSpec.blank .define with
      references := [⟨[.plain "Base"]⟩]
      attributes := .ofList [("outputs:volume:surface", ⟨.token, none, none, false⟩),
        ("outputs:surface:ri", ⟨.token, none, none, false⟩)] }),
    (⟨[.plain "Base"]⟩, { PrimSpec.blank .define with
      attributes := .ofList [("outputs:surface", ⟨.token, none, none, false⟩),
        ("outputs:ri:gpu:surface", ⟨.token, none, none, false⟩)] })]⟩]

/-- The output in the context with a colon is found and listed, and it is in that context alone. -/
theorem shaded_by_base_in_gpu :
    TerminalKind.surface.outputName "ri:gpu" = "outputs:ri:gpu:surface" ∧
      (∀ context, TerminalKind.surface.outputName context = "outputs:ri:gpu:surface" →
        context = "ri:gpu") ∧
      ⟨⟨[.plain "M"]⟩, "outputs:ri:gpu:surface"⟩ ∈
        terminalOutputs shadedByBase ⟨[.plain "M"]⟩ .surface ∧
      Output.terminal? ⟨⟨[.plain "M"]⟩, "outputs:ri:gpu:surface"⟩ = some .surface ∧
      Output.context? ⟨⟨[.plain "M"]⟩, "outputs:ri:gpu:surface"⟩ = some "ri:gpu" := by
  obtain ⟨-, hsplits, hinjective, houtputs⟩ := terminal_outputs_by_context
  obtain ⟨-, hlisted, hcontexts⟩ := houtputs shadedByBase ⟨[.plain "M"]⟩ .surface
  have hname : TerminalKind.surface.outputName "ri:gpu" = "outputs:ri:gpu:surface" :=
    hsplits _ _ _ (by decide)
  have hfound : terminalOutput? shadedByBase ⟨[.plain "M"]⟩ .surface "ri:gpu" =
      some ⟨⟨[.plain "M"]⟩, "outputs:ri:gpu:surface"⟩ := by decide
  refine ⟨hname, ?_, (hlisted _).mpr ⟨_, hfound⟩, hcontexts _ _ hfound⟩
  intro context hother
  exact (hinjective _ _ _ _ (hother.trans hname.symm)).2

end Material

end LayeredShading
