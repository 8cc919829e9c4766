import LayeredShading.Network.Resolution
import LayeredShading.Proofs.Composition.Overlay
import Mathlib.Data.List.Chain
import Mathlib.Data.List.Perm.Subperm

/-!
# Terminal resolution

`Stage.Walk` is the walk along connections without a bound on its length: it ends where it comes
back to an output, where it finds nothing to pass on to, or at a shader output. The attributes that
compose are finitely many (`mem_attribute_universe`), so every walk ends, with the result that
`follow` computes (`walk_follow`). `Stage.Resolves` says what a walk looks for: a chain of
connections through outputs of node graphs and materials to an output of a shader. Cutting walks
that come back loses no such chain (`follow_eq_some_iff`), because each output on a chain has its
own distance from the shader.
-/

namespace LayeredShading

/-- What is left after a lead is what the lead has to be continued by to give the text. -/
theorem Text.dropLead?_eq_some_iff {lead text rest : String} :
    Text.dropLead? lead text = some rest ↔ text = lead ++ rest := by
  simp only [Text.dropLead?, Option.map_eq_some_iff, List.isPrefixOf?_eq_some_iff_append_eq]
  constructor
  · rintro ⟨chars, happend, rfl⟩
    rw [← String.toList_inj, String.toList_append, String.toList_ofList, happend]
  · rintro rfl
    exact ⟨rest.toList, String.toList_append.symm, String.ofList_toList⟩

/-! ## Finitely many attributes -/

/-- The lists over some names that are no longer than a bound. -/
def listsWithin (names : List String) : Nat → List (List String)
  | 0 => [[]]
  | bound + 1 => [] :: names.flatMap fun name => (listsWithin names bound).map (name :: ·)

theorem mem_lists_within {names list : List String} {bound : Nat} (hlength : list.length ≤ bound)
    (hnames : ∀ name ∈ list, name ∈ names) : list ∈ listsWithin names bound := by
  induction bound generalizing list with
  | zero =>
      have hnil : list = [] := List.length_eq_zero_iff.mp (Nat.le_zero.mp hlength)
      simp [hnil, listsWithin]
  | succ bound ih =>
      cases list with
      | nil => exact List.mem_cons_self
      | cons name rest =>
          refine List.mem_cons_of_mem _ (List.mem_flatMap.mpr
            ⟨name, hnames _ List.mem_cons_self, ?_⟩)
          have hrest := ih (Nat.le_of_succ_le_succ hlength) fun other hother =>
            hnames other (List.mem_cons_of_mem _ hother)
          exact List.mem_map.mpr ⟨rest, hrest, rfl⟩

theorem length_lists_within_le (names : List String) (bound : Nat) :
    (listsWithin names bound).length ≤ Nat.pow (names.length + 1) bound := by
  induction bound with
  | zero => simp [listsWithin]
  | succ bound ih =>
      have hpos : 0 < Nat.pow (names.length + 1) bound := Nat.pow_pos (Nat.succ_pos _)
      have hsum : (listsWithin names (bound + 1)).length =
          names.length * (listsWithin names bound).length + 1 := by
        simp [listsWithin, List.length_flatMap]
      have hmul := Nat.mul_le_mul_left names.length ih
      have hpow : Nat.pow (names.length + 1) (bound + 1) =
          names.length * Nat.pow (names.length + 1) bound + Nat.pow (names.length + 1) bound := by
        show Nat.pow (names.length + 1) bound * (names.length + 1) = _
        rw [Nat.mul_succ, Nat.mul_comm]
      omega

namespace Stage

/-- The names of the attributes of all specs. -/
def specAttributes (layers : List Layer) : List String :=
  layers.flatMap fun layer => layer.specs.entries.flatMap fun entry => entry.2.attributes.keys

/-- Every attribute that can compose: with the name of an attribute of a spec, on a prim whose path
has names from the paths of specs and is not as deep as `depthBound`. -/
def attributeUniverse (layers : List Layer) : List PropertyPath :=
  (specAttributes layers).flatMap fun name =>
    (listsWithin ((Opinion.specSegments layers).map (·.name)) (depthBound layers)).map fun names =>
      ⟨PrimPath.root.descend names, name⟩

theorem length_attribute_universe_lt (layers : List Layer) :
    (attributeUniverse layers).length < attributeBound layers := by
  have hlists := length_lists_within_le ((Opinion.specSegments layers).map (·.name))
    (depthBound layers)
  rw [List.length_map] at hlists
  have hlength : (attributeUniverse layers).length = attributeCount layers *
      (listsWithin ((Opinion.specSegments layers).map (·.name)) (depthBound layers)).length := by
    simp [attributeUniverse, List.length_flatMap, attributeCount, specAttributes]
  rw [hlength]
  exact Nat.lt_succ_of_le (Nat.mul_le_mul_left _ hlists)

variable {stage : Stage}

/-- An attribute composes exactly if its prim does and declares it. -/
theorem attribute_eq_some_iff {path : PropertyPath} {composed : ComposedAttribute} :
    stage.attribute? path = some composed ↔
      ∃ prim, stage.prim? path.prim = some prim ∧ prim.attribute? path.name = some composed := by
  simp [attribute?, Option.bind_eq_some_iff]

/-- An attribute that composes has the name of a property, and some spec says something about
it. -/
theorem exists_spec_of_attribute {path : PropertyPath}
    (h : (stage.attribute? path).isSome = true) :
    isPropertyName path.name = true ∧ path.name ∈ specAttributes stage.layers := by
  obtain ⟨composed, hcomposed⟩ := Option.isSome_iff_exists.mp h
  obtain ⟨prim, hprim, hattribute⟩ := attribute_eq_some_iff.mp hcomposed
  obtain ⟨hroot, hplain, -⟩ := compose_is_some_iff.mp (Option.isSome_of_eq_some hprim)
  have htypes : ((compose stage.layers path.prim).bind (·.attribute? path.name)).bind
      (fun composed => some composed.type) =
        (Opinion.gather stage.layers path.prim).findSome? fun opinion =>
          (opinion.attribute? path.name).bind fun spec => some spec.type :=
    compose_attribute hroot hplain _ _ _ (fun _ => rfl) (fun _ _ => rfl)
  have hopen : compose stage.layers path.prim = some prim := hprim
  rw [hopen, Option.bind_some, hattribute, Option.bind_some] at htypes
  obtain ⟨opinion, hopinion, hsays⟩ := List.exists_of_findSome?_eq_some htypes.symm
  obtain ⟨hlayer, hspec⟩ := Opinion.authored_of_mem_gather hopinion
  rw [Opinion.attribute_eq] at hsays
  by_cases hname : isPropertyName path.name = true
  · refine ⟨hname, List.mem_flatMap.mpr ⟨opinion.layer, hlayer, List.mem_flatMap.mpr
      ⟨(opinion.site, opinion.spec), SortedMap.get?_eq_some_iff.mp hspec, ?_⟩⟩⟩
    cases hown : opinion.spec.attributes.get? path.name with
    | none => simp [hown] at hsays
    | some spec => exact SortedMap.mem_keys_iff.mpr ⟨spec, hown⟩
  · simp [hname] at hsays

/-- What composes is a property of a prim of the scene. -/
theorem proper_of_attribute {path : PropertyPath} (h : (stage.attribute? path).isSome = true) :
    path.prim.isRoot = false ∧ path.prim.hasChoices = false ∧
      isPropertyName path.name = true := by
  obtain ⟨composed, hcomposed⟩ := Option.isSome_iff_exists.mp h
  obtain ⟨prim, hprim, -⟩ := attribute_eq_some_iff.mp hcomposed
  obtain ⟨hroot, hplain, -⟩ := compose_is_some_iff.mp (Option.isSome_of_eq_some hprim)
  exact ⟨hroot, hplain, (exists_spec_of_attribute h).1⟩

/-- Every attribute that composes belongs to a finite universe. -/
theorem mem_attribute_universe {path : PropertyPath}
    (h : (stage.attribute? path).isSome = true) : path ∈ attributeUniverse stage.layers := by
  obtain ⟨-, hname⟩ := exists_spec_of_attribute h
  obtain ⟨composed, hcomposed⟩ := Option.isSome_iff_exists.mp h
  obtain ⟨prim, hprim, -⟩ := attribute_eq_some_iff.mp hcomposed
  have hsome : (compose stage.layers path.prim).isSome = true := Option.isSome_of_eq_some hprim
  obtain ⟨-, hplain, -⟩ := compose_is_some_iff.mp hsome
  have hpath : path.prim = PrimPath.root.descend (path.prim.segments.map (·.name)) := by
    have hroot : path.prim = PrimPath.root.append path.prim.segments := by
      cases path.prim
      simp [PrimPath.append, PrimPath.root]
    rw [hroot] at hplain
    exact hroot.trans (PrimPath.append_eq_descend hplain)
  have hdepth : path.prim.depth ≤ depthBound stage.layers :=
    Nat.le_succ_of_le (depth_le_of_compose hsome)
  refine List.mem_flatMap.mpr ⟨path.name, hname, List.mem_map.mpr
    ⟨path.prim.segments.map (·.name), mem_lists_within ?_ ?_, by rw [← hpath]⟩⟩
  · simpa [PrimPath.depth] using hdepth
  · intro name hmem
    obtain ⟨segment, hsegment, rfl⟩ := List.mem_map.mp hmem
    exact named_of_compose hsome segment hsegment

end Stage

/-! ## Walks -/

/-- `stage.Walk visited path result` says that the walk along connections from `path`, when the
outputs of `visited` have been passed, ends with `result`. -/
inductive Stage.Walk (stage : Stage) :
    List PropertyPath → PropertyPath → Option ShaderOutput → Prop where
  | revisited {visited path} : path ∈ visited → Stage.Walk stage visited path none
  | arrived {visited path source} : path ∉ visited → stage.lead? path = some (.shader source) →
      Stage.Walk stage visited path (some source)
  | passed {visited path next result} : path ∉ visited →
      stage.lead? path = some (.through next) →
      Stage.Walk stage (path :: visited) next result → Stage.Walk stage visited path result
  | lost {visited path} : path ∉ visited → stage.lead? path = none →
      Stage.Walk stage visited path none

namespace Stage

variable {stage : Stage}

/-- What leads anywhere is an attribute that composes. -/
theorem attribute_of_lead {path : PropertyPath} {lead : Lead} (h : stage.lead? path = some lead) :
    (stage.attribute? path).isSome = true := by
  rw [lead?, Option.bind_eq_bind, Option.bind_eq_some_iff] at h
  obtain ⟨composed, hcomposed, -⟩ := h
  exact Option.isSome_of_eq_some hcomposed

/-- A walk of bounded length ends as an unbounded one when the attributes left to visit are fewer
than the bound. -/
theorem walk_follow_within {steps : Nat} {visited : List PropertyPath} {path : PropertyPath}
    (hdistinct : visited.Nodup)
    (hvisited : ∀ passed ∈ visited, (stage.attribute? passed).isSome = true)
    (hsteps : (attributeUniverse stage.layers).length < visited.length + steps) :
    stage.Walk visited path (stage.followWithin steps visited path) := by
  -- Each step visits one more attribute of a finite universe, so the steps cannot run out.
  induction steps generalizing visited path with
  | zero =>
      have hsubset : visited ⊆ attributeUniverse stage.layers := fun passed hpassed =>
        mem_attribute_universe (hvisited passed hpassed)
      have hle := (hdistinct.subperm hsubset).length_le
      omega
  | succ steps ih =>
      by_cases hrevisited : path ∈ visited
      · simpa [followWithin, hrevisited] using .revisited hrevisited
      · simp only [followWithin, hrevisited, if_false]
        cases hlead : stage.lead? path with
        | none => exact .lost hrevisited hlead
        | some lead =>
            cases lead with
            | shader source => exact .arrived hrevisited hlead
            | through next =>
                refine .passed hrevisited hlead (ih (List.nodup_cons.mpr ⟨hrevisited, hdistinct⟩)
                  ?_ (by simp only [List.length_cons]; omega))
                intro passed hpassed
                rcases List.mem_cons.mp hpassed with rfl | hpassed
                · exact attribute_of_lead hlead
                · exact hvisited passed hpassed

/-- Every walk ends, with what `follow` computes. -/
theorem walk_follow (path : PropertyPath) : stage.Walk [] path (stage.follow path) :=
  walk_follow_within List.nodup_nil (by simp)
    (by simpa using length_attribute_universe_lt stage.layers)

/-! ## Chains of connections -/

/-- An attribute composes and a source is the last of its connections. -/
def Connects (stage : Stage) (output source : PropertyPath) : Prop :=
  ∃ composed, stage.attribute? output = some composed ∧ composed.lastConnection? = some source

/-- An output is declared on a composed prim of a type. -/
structure OutputOn (stage : Stage) (typeName : String) (output : PropertyPath)
    (baseName : String) (type : ValueType) : Prop where
  name_eq : output.name = outputsNamespace ++ baseName
  declared : ∃ prim composed, stage.prim? output.prim = some prim ∧ prim.isA typeName = true ∧
    prim.attribute? output.name = some composed ∧ composed.type = type

/-- An output of a node graph or a material passes on what it is connected to. -/
def PassesOn (stage : Stage) (output : PropertyPath) : Prop :=
  ∃ typeName ∈ [nodeGraphType, materialType], ∃ baseName type,
    stage.OutputOn typeName output baseName type

/-- An output resolves to a shader output when a chain of connections leads to it through outputs
that pass on what they are connected to. -/
def Resolves (stage : Stage) (output : PropertyPath) (source : ShaderOutput) : Prop :=
  ∃ middle last, (output :: (middle ++ [last])).IsChain stage.Connects ∧
    (∀ passed ∈ middle, stage.PassesOn passed) ∧
    last.prim = source.shader ∧ stage.OutputOn shaderType last source.output source.type

/-- What an output leads to is a declared output of the prim that its last connection names. -/
theorem lead_eq_some_iff {output : PropertyPath} {lead : Lead} :
    stage.lead? output = some lead ↔
      ∃ source baseName prim composed, stage.Connects output source ∧
        source.name = outputsNamespace ++ baseName ∧ stage.prim? source.prim = some prim ∧
        prim.attribute? source.name = some composed ∧
        (if prim.isA shaderType then some (.shader ⟨source.prim, baseName, composed.type⟩)
          else if prim.isA nodeGraphType || prim.isA materialType then some (.through source)
          else none) = some lead := by
  simp only [lead?, Option.bind_eq_bind, Option.bind_eq_some_iff, Text.dropLead?_eq_some_iff,
    Connects]
  constructor
  · rintro ⟨own, hown, source, hsource, baseName, hname, prim, hprim, composed, hcomposed, hlead⟩
    exact ⟨source, baseName, prim, composed, ⟨own, hown, hsource⟩, hname, hprim, hcomposed, hlead⟩
  · rintro ⟨source, baseName, prim, composed, ⟨own, hown, hsource⟩, hname, hprim, hcomposed, hlead⟩
    exact ⟨own, hown, source, hsource, baseName, hname, prim, hprim, composed, hcomposed, hlead⟩

/-- An output leads to a shader output exactly if its last connection is that output. -/
theorem lead_eq_shader_iff {output : PropertyPath} {source : ShaderOutput} :
    stage.lead? output = some (.shader source) ↔
      ∃ last, stage.Connects output last ∧ last.prim = source.shader ∧
        stage.OutputOn shaderType last source.output source.type := by
  rw [lead_eq_some_iff]
  constructor
  · rintro ⟨last, baseName, prim, composed, hconnects, hname, hprim, hcomposed, hlead⟩
    by_cases hshader : prim.isA shaderType = true
    · rw [if_pos hshader] at hlead
      obtain rfl : ShaderOutput.mk last.prim baseName composed.type = source := by
        simpa using hlead
      exact ⟨last, hconnects, rfl, hname, prim, composed, hprim, hshader, hcomposed, rfl⟩
    · rw [if_neg hshader] at hlead
      split at hlead <;> cases hlead
  · rintro ⟨last, hconnects, hshader, hname, prim, composed, hprim, hisA, hcomposed, htype⟩
    refine ⟨last, source.output, prim, composed, hconnects, hname, hprim, hcomposed, ?_⟩
    rw [if_pos hisA, hshader, htype]

/-- An output leads on through another exactly if that is its last connection and passes on what
it is connected to. -/
theorem lead_eq_through_iff {output next : PropertyPath} :
    stage.lead? output = some (.through next) ↔
      stage.Connects output next ∧ stage.PassesOn next := by
  rw [lead_eq_some_iff]
  constructor
  · rintro ⟨source, baseName, prim, composed, hconnects, hname, hprim, hcomposed, hlead⟩
    by_cases hshader : prim.isA shaderType = true
    · rw [if_pos hshader] at hlead
      cases hlead
    · rw [if_neg hshader] at hlead
      by_cases hpasses : (prim.isA nodeGraphType || prim.isA materialType) = true
      · rw [if_pos hpasses] at hlead
        obtain rfl : source = next := by simpa using hlead
        refine ⟨hconnects, ?_⟩
        rcases Bool.or_eq_true_iff.mp hpasses with hisA | hisA
        · exact ⟨nodeGraphType, by simp, baseName, composed.type, hname, prim, composed, hprim,
            hisA, hcomposed, rfl⟩
        · exact ⟨materialType, by simp, baseName, composed.type, hname, prim, composed, hprim,
            hisA, hcomposed, rfl⟩
      · rw [if_neg hpasses] at hlead
        cases hlead
  · rintro ⟨hconnects, typeName, htype, baseName, type, hname, prim, composed, hprim, hisA,
      hcomposed, -⟩
    refine ⟨next, baseName, prim, composed, hconnects, hname, hprim, hcomposed, ?_⟩
    have hpasses : (prim.isA nodeGraphType || prim.isA materialType) = true := by
      simp only [List.mem_cons, List.not_mem_nil, or_false] at htype
      rcases htype with rfl | rfl <;> simp [hisA]
    -- One prim has one type, so what passes on is no shader.
    have hshader : ¬ prim.isA shaderType = true := by
      intro hshader
      simp only [ComposedPrim.isA, beq_iff_eq, Bool.or_eq_true] at hpasses hshader
      rw [hshader] at hpasses
      revert hpasses
      decide
    rw [if_neg hshader, if_pos hpasses]

/-- An output resolves to the shader output that it leads to. -/
theorem Resolves.arrived {output : PropertyPath} {source : ShaderOutput}
    (hlead : stage.lead? output = some (.shader source)) : stage.Resolves output source := by
  obtain ⟨last, hconnects, hlast⟩ := lead_eq_shader_iff.mp hlead
  exact ⟨[], last, .cons_cons hconnects (.singleton last), by simp, hlast⟩

/-- An output resolves to what the output that it leads through resolves to. -/
theorem Resolves.passed {output next : PropertyPath} {source : ShaderOutput}
    (hlead : stage.lead? output = some (.through next)) (h : stage.Resolves next source) :
    stage.Resolves output source := by
  obtain ⟨hconnects, hpasses⟩ := lead_eq_through_iff.mp hlead
  obtain ⟨middle, last, hchain, hmiddle, hlast⟩ := h
  refine ⟨next :: middle, last, .cons_cons hconnects hchain, ?_, hlast⟩
  intro passed hpassed
  rcases List.mem_cons.mp hpassed with rfl | hpassed
  · exact hpasses
  · exact hmiddle passed hpassed

/-- An output leads to a shader output when a number of other outputs are passed. -/
inductive LeadsIn (stage : Stage) (source : ShaderOutput) : Nat → PropertyPath → Prop where
  | arrived {output} : stage.lead? output = some (.shader source) → LeadsIn stage source 0 output
  | passed {output next distance} : stage.lead? output = some (.through next) →
      LeadsIn stage source distance next → LeadsIn stage source (distance + 1) output

/-- An output resolves exactly if it leads to the shader output at some distance. -/
theorem resolves_iff_exists_leads_in {output : PropertyPath} {source : ShaderOutput} :
    stage.Resolves output source ↔ ∃ distance, stage.LeadsIn source distance output := by
  constructor
  · rintro ⟨middle, hresolves⟩
    induction middle generalizing output with
    | nil =>
        obtain ⟨last, hchain, -, hlast⟩ := hresolves
        have hconnects : stage.Connects output last := (List.isChain_cons_cons.mp hchain).1
        exact ⟨0, .arrived (lead_eq_shader_iff.mpr ⟨last, hconnects, hlast⟩)⟩
    | cons next middle ih =>
        obtain ⟨last, hchain, hmiddle, hlast⟩ := hresolves
        obtain ⟨hconnects, hrest⟩ := List.isChain_cons_cons.mp hchain
        obtain ⟨distance, hleads⟩ := ih ⟨last, hrest,
          fun passed hpassed => hmiddle passed (List.mem_cons_of_mem _ hpassed), hlast⟩
        exact ⟨distance + 1, .passed (lead_eq_through_iff.mpr
          ⟨hconnects, hmiddle _ List.mem_cons_self⟩) hleads⟩
  · rintro ⟨distance, hleads⟩
    induction hleads with
    | arrived hlead => exact .arrived hlead
    | passed hlead _ ih => exact .passed hlead ih

/-- An output has one distance from a shader output. -/
theorem LeadsIn.distance_eq {output : PropertyPath} {source : ShaderOutput} {first second : Nat}
    (hfirst : stage.LeadsIn source first output) (hsecond : stage.LeadsIn source second output) :
    first = second := by
  induction hfirst generalizing second with
  | arrived hlead =>
      cases hsecond with
      | arrived _ => rfl
      | passed hother _ => simp [hlead] at hother
  | passed hlead _ ih =>
      cases hsecond with
      | arrived hother => simp [hlead] at hother
      | passed hother hrest =>
          obtain rfl : _ = _ := by simpa [hlead] using hother
          rw [ih hrest]

/-- A walk ends at the shader output that its start leads to: what it has passed is farther away
than where it is, so it does not come back. -/
theorem Walk.result_eq {visited : List PropertyPath} {output : PropertyPath}
    {result : Option ShaderOutput} (h : stage.Walk visited output result) {source : ShaderOutput}
    {distance : Nat} (hleads : stage.LeadsIn source distance output)
    (hvisited : ∀ passed ∈ visited, ∃ farther, distance < farther ∧
      stage.LeadsIn source farther passed) : result = some source := by
  induction h generalizing distance with
  | revisited hrevisited =>
      -- what has been visited is farther away, and no output has two distances
      obtain ⟨farther, hlt, hfarther⟩ := hvisited _ hrevisited
      have hsame := hleads.distance_eq hfarther
      omega
  | arrived _ hlead =>
      cases hleads with
      | arrived hother => simpa [hlead] using hother
      | passed hother _ => simp [hlead] at hother
  | passed _ hlead _ ih =>
      cases hleads with
      | arrived hother => simp [hlead] at hother
      | passed hother hrest =>
          obtain rfl : _ = _ := by simpa [hlead] using hother
          refine ih hrest ?_
          intro passed hpassed
          rcases List.mem_cons.mp hpassed with rfl | hpassed
          · exact ⟨_, Nat.lt_succ_self _, .passed hlead hrest⟩
          · obtain ⟨farther, hlt, hfarther⟩ := hvisited passed hpassed
            exact ⟨farther, by omega, hfarther⟩
  | lost _ hlead =>
      cases hleads with
      | arrived hother => simp [hlead] at hother
      | passed hother _ => simp [hlead] at hother

/-- What a walk ends with is what its start resolves to. -/
theorem Walk.resolves {visited : List PropertyPath} {output : PropertyPath}
    {source : ShaderOutput} (h : stage.Walk visited output (some source)) :
    stage.Resolves output source := by
  generalize hresult : some source = result at h
  induction h with
  | revisited _ => cases hresult
  | arrived _ hlead =>
      cases hresult
      exact .arrived hlead
  | passed _ hlead _ ih => exact .passed hlead (ih hresult)
  | lost _ _ => cases hresult

/-- Following connections finds a shader output exactly if the start resolves to it. -/
theorem follow_eq_some_iff {output : PropertyPath} {source : ShaderOutput} :
    stage.follow output = some source ↔ stage.Resolves output source := by
  constructor
  · intro h
    have hwalk : stage.Walk [] output (stage.follow output) := walk_follow output
    rw [h] at hwalk
    exact hwalk.resolves
  · intro h
    obtain ⟨distance, hleads⟩ := resolves_iff_exists_leads_in.mp h
    exact (walk_follow output).result_eq hleads (by simp)

end Stage

/-! ## Terminals -/

namespace Material

/-- The output of a material for a terminal and a render context. -/
def terminalPath (material : PrimPath) (kind : TerminalKind) (context : String) : PropertyPath :=
  ⟨material, kind.outputName context⟩

/-- The output of a material for a terminal and a render context is declared, and it resolves to a
shader output. -/
structure ResolvesFor (stage : Stage) (material : PrimPath) (kind : TerminalKind)
    (context : String) (source : ShaderOutput) : Prop where
  declared : (stage.attribute? (terminalPath material kind context)).isSome = true
  resolves : stage.Resolves (terminalPath material kind context) source

variable {stage : Stage} {material : PrimPath} {kind : TerminalKind}

/-- The output for a terminal and a render context is found if it is declared. -/
theorem terminal_output_eq (context : String) :
    terminalOutput? stage material kind context =
      if (stage.attribute? (terminalPath material kind context)).isSome then
        some (terminalPath material kind context)
      else none := by
  rw [terminalOutput?, Output.declared?, Option.bind_eq_bind]
  by_cases hdeclared : (stage.attribute? (terminalPath material kind context)).isSome = true
  · obtain ⟨hroot, -, hname⟩ := Stage.proper_of_attribute hdeclared
    have hproperty : material.property (kind.outputName context) =
        .ok (terminalPath material kind context) := by
      simp only [terminalPath] at hname hroot ⊢
      simp [PrimPath.property, hname, hroot]
    rw [hproperty, if_pos hdeclared]
    exact if_pos hdeclared
  · rw [if_neg hdeclared, PrimPath.property]
    split
    · rfl
    · exact if_neg hdeclared

/-- One context is answered by what the declared output for it resolves to. -/
theorem answer_eq_some_iff {context : String} {source : ShaderOutput} :
    (terminalOutput? stage material kind context).bind stage.follow = some source ↔
      ResolvesFor stage material kind context source := by
  rw [terminal_output_eq]
  split
  · next hdeclared =>
      rw [Option.bind_some, Stage.follow_eq_some_iff]
      exact ⟨fun hresolves => ⟨hdeclared, hresolves⟩, ResolvesFor.resolves⟩
  · next hdeclared =>
      constructor
      · intro h
        cases h
      · intro h
        exact absurd h.declared hdeclared

end Material

end LayeredShading
