import LayeredShading.CommandLine.Folder
import LayeredShading.Proofs.Network.MasterExtension

/-!
# The command that makes a master

What the command saves is the description of the stage that it holds at the end
(`make_master_eq_ok`). That stage extends the one that was loaded (`extends_to_of_master_stage`), so
it is loaded again from what was saved: `saved_master_reloads`.
-/

namespace LayeredShading

namespace CommandLine

/-! ## Runs over a folder -/

/-- What a part of a run over a folder gives, and the folder after it. -/
def Folder.attempt {α : Type} (folder : Folder) (part : ExceptT Failure (StateM Folder) α) :
    Except Failure α × Folder :=
  part.run.run folder

section Attempt

variable {α β : Type} {folder after : Folder}

/-- A result is passed on and changes no file. -/
theorem attempt_lift_eq_ok {checked : Except Failure α} {result : α} :
    folder.attempt (liftExcept checked) = (.ok result, after) ↔
      checked = .ok result ∧ folder = after := by
  show (checked, folder) = (.ok result, after) ↔ _
  rw [Prod.mk.injEq]

/-- A sequence of parts succeeds exactly if both do, one after the other. -/
theorem attempt_bind_eq_ok {part : ExceptT Failure (StateM Folder) α}
    {next : α → ExceptT Failure (StateM Folder) β} {result : β} :
    folder.attempt (part >>= next) = (.ok result, after) ↔
      ∃ value between, folder.attempt part = (.ok value, between) ∧
        between.attempt (next value) = (.ok result, after) := by
  have hbind : folder.attempt (part >>= next) =
      ExceptT.bindCont next (folder.attempt part).1 (folder.attempt part).2 := rfl
  rw [hbind]
  rcases folder.attempt part with ⟨failure | value, between⟩
  · have hfailed : ExceptT.bindCont next (.error failure) between = (.error failure, between) := rfl
    simp [hfailed]
  · have hnext : ExceptT.bindCont next (.ok value) between = between.attempt (next value) := rfl
    simp [hnext]

theorem attempt_pure (value : α) : folder.attempt (pure value) = (.ok value, folder) := rfl

theorem attempt_throw (failure : Failure) :
    folder.attempt (throw failure : ExceptT Failure (StateM Folder) α) =
      (.error failure, folder) := rfl

/-- What an access to the files gives is used in the folder that it leaves. -/
theorem attempt_bind_access {access : StateM Folder α}
    {next : α → ExceptT Failure (StateM Folder) β} :
    folder.attempt (liftM access >>= next) =
      (access.run folder).2.attempt (next (access.run folder).1) := rfl

/-- A stage is loaded from a text that is read, and no file changes. -/
theorem attempt_load_eq_ok {file : String} {stage : Stage} :
    folder.attempt (load Folder.access file) = (.ok stage, after) ↔
      (∃ text, folder.read file = .ok text ∧ Stage.parse text = .ok stage) ∧ folder = after := by
  have hread : (Folder.access.read file).run folder =
      ((folder.read file).mapError fun fault => .fileAccess fault.reason, folder) := rfl
  rw [load, attempt_bind_access, hread]
  cases folder.read file with
  | error fault => simp [Except.mapError, Except.bind, attempt_throw]
  | ok text =>
      cases hparse : Stage.parse text <;>
        simp [Except.mapError, Except.bind, hparse, attempt_pure, attempt_throw]

/-- A stage is saved by writing the text of its description. -/
theorem attempt_save_eq_ok {file : String} {stage : Stage} :
    folder.attempt (save Folder.access file stage) = (.ok (), after) ↔
      folder.write file stage.describe.text = .ok after := by
  rw [save, attempt_bind_access, Folder.access]
  simp only [StateT.run_bind, StateT.run_get, pure_bind]
  cases folder.write file stage.describe.text with
  | error fault =>
      show (Except.error (Failure.saving file (.fileAccess fault.reason)), folder) = _ ↔ _
      simp
  | ok between =>
      show (Except.ok (), between) = _ ↔ _
      simp

end Attempt

/-- The command that makes a master saves the stage that it has loaded and made a master on. -/
theorem make_master_eq_ok {folder after : Folder} {scene out name : String}
    {arguments lines : List String} {set : Option String}
    (h : folder.attempt (makeMaster Folder.access scene out name arguments set) =
      (.ok lines, after)) :
    ∃ source stage master later, folder.read scene = .ok source ∧
      Stage.parse source = .ok stage ∧ primPath name = .ok master ∧
      masterStage stage master arguments set = .ok later ∧
      folder.write out later.describe.text = .ok after := by
  rw [makeMaster, attempt_bind_eq_ok] at h
  obtain ⟨stage, _, hload, h⟩ := h
  obtain ⟨⟨source, hsource, hparse⟩, rfl⟩ := attempt_load_eq_ok.mp hload
  rw [attempt_bind_eq_ok] at h
  obtain ⟨master, _, hmaster, h⟩ := h
  obtain ⟨hname, rfl⟩ := attempt_lift_eq_ok.mp hmaster
  rw [attempt_bind_eq_ok] at h
  obtain ⟨later, _, hlater, h⟩ := h
  obtain ⟨hmade, rfl⟩ := attempt_lift_eq_ok.mp hlater
  rw [attempt_bind_eq_ok] at h
  obtain ⟨_, _, hsave, h⟩ := h
  cases h
  exact ⟨source, stage, master, later, hsource, hparse, hname, hmade, attempt_save_eq_ok.mp hsave⟩

/-! ## The stage with the master -/

theorem prim_path_eq_ok {argument : String} {path : PrimPath} :
    primPath argument = .ok path ↔ PrimPath.parse argument = .ok path := by
  rw [primPath]
  cases PrimPath.parse argument <;> simp [Except.mapError]

/-- The material that an argument names stands at the path that it spells. -/
theorem prim_path_of_material_path {stage : Stage} {argument : String} {path : PrimPath}
    (h : materialPath stage argument = .ok path) : primPath argument = .ok path := by
  obtain ⟨found, hfound, h⟩ := except_bind_eq_ok_iff.mp h
  split at h
  next =>
    cases h
    exact hfound
  next => cases h

theorem prim_paths_of_material_paths {stage : Stage} {arguments : List String}
    {paths : List PrimPath} (h : arguments.mapM (materialPath stage) = .ok paths) :
    arguments.mapM primPath = .ok paths := by
  induction arguments generalizing paths with
  | nil => exact h
  | cons argument rest ih =>
      rw [List.mapM_cons, except_bind_eq_ok_iff] at h
      obtain ⟨path, hpath, h⟩ := h
      obtain ⟨others, hothers, h⟩ := except_bind_eq_ok_iff.mp h
      rw [List.mapM_cons, prim_path_of_material_path hpath, ih hothers]
      exact h

theorem edited_eq_ok {stage later : Stage} {edit : Edit Unit} :
    edited stage edit = .ok later ↔ edit.run stage = .ok () later := by
  rw [edited]
  cases edit.run stage <;> simp

/-- A master that does not compose is defined before its variants are made. -/
theorem master_stage_eq_ok {stage later : Stage} {master : PrimPath} {arguments : List String}
    {set : Option String} (h : masterStage stage master arguments set = .ok later) :
    ∃ between materials,
      (between = stage ∨ stage.hasPrim master = false ∧
        (Edit.definePrim master none).run stage = .ok () between) ∧
      arguments.mapM (materialPath between) = .ok materials ∧
      (MasterVariant.create master materials set).run between = .ok () later := by
  rw [masterStage] at h
  split at h
  next =>
    obtain ⟨_, hbetween, h⟩ := except_bind_eq_ok_iff.mp h
    obtain rfl := Except.ok.inj hbetween
    obtain ⟨materials, hmaterials, h⟩ := except_bind_eq_ok_iff.mp h
    exact ⟨stage, materials, .inl rfl, hmaterials, edited_eq_ok.mp h⟩
  next hprim =>
    obtain ⟨between, hbetween, h⟩ := except_bind_eq_ok_iff.mp h
    obtain ⟨materials, hmaterials, h⟩ := except_bind_eq_ok_iff.mp h
    exact ⟨between, materials, .inr ⟨Bool.eq_false_iff.mpr hprim, edited_eq_ok.mp hbetween⟩,
      hmaterials, edited_eq_ok.mp h⟩

/-- A stage that is loaded is extended by a master, and the specs that are there are rewritten. -/
theorem extends_to_of_master_stage {stage later : Stage} {master : PrimPath}
    {arguments : List String} {set : Option String} (htarget : stage.target = .ofLayer 0)
    (hmaster : master.Spellable) (hselections : stage.SelectionsDeclared)
    (h : masterStage stage master arguments set = .ok later) :
    stage.ExtendsTo later ∧ ∃ materials, arguments.mapM primPath = .ok materials ∧
      ∀ place path spec, stage.spec? place path = some spec →
        later.spec? place path = some (if place = 0 then
          MasterVariant.written master (set.getD Material.variantSet) materials path spec
        else spec) := by
  obtain ⟨between, materials, hbetween, hmaterials, hcreate⟩ := master_stage_eq_ok h
  have hplain : stage.target.redirections = [] := by
    rw [htarget]
    rfl
  have hdefined : stage.ExtendsTo between ∧ ∀ place path spec,
      stage.spec? place path = some spec → between.spec? place path = some spec := by
    rcases hbetween with rfl | ⟨hprim, hdefine⟩
    · exact ⟨.refl _, fun _ _ _ => id⟩
    · exact ⟨Stage.extends_to_define hplain hmaster hdefine, fun _ _ _ =>
        Stage.spec_eq_of_define hplain hprim hdefine⟩
  have hspellable : ∀ material ∈ materials, material.Spellable := by
    intro material hmem
    obtain ⟨argument, -, hread⟩ := exists_of_map_m_eq_ok hmaterials hmem
    exact PrimPath.spellable_of_parse (prim_path_eq_ok.mp (prim_path_of_material_path hread))
  obtain ⟨hextends, hspecs⟩ := MasterVariant.extends_to_of_run_create
    (hdefined.1.target_eq ▸ hplain) hmaster hspellable
    (Stage.selections_declared_of_extended hdefined.1.extended hselections) hcreate
  refine ⟨hdefined.1.trans hextends, materials, prim_paths_of_material_paths hmaterials, ?_⟩
  intro place path spec hspec
  have hlater := hspecs place path spec (hdefined.2 place path spec hspec)
  rwa [hdefined.1.target_eq, htarget] at hlater

/-! ## Loading what was saved -/

/-- Whenever the command that makes a master succeeds on a scene whose numbers are within range, the
description that it saves is loaded as the stage that it holds at the end, and so is the text that
it writes if a text is read back as the value that it is written of. Every spec of the scene is
still there; in the first layer that of the master has the new variants besides, and those of the
variants have the references, and all others are as they were. -/
theorem saved_master_reloads {folder after : Folder} {scene out name source : String}
    {arguments lines : List String} {set : Option String} {description : SceneDescription}
    (hread : folder.read scene = .ok source)
    (hparse : SceneDescription.parse source = .ok description) (hrange : description.InRange)
    (h : folder.attempt (makeMaster Folder.access scene out name arguments set) =
      (.ok lines, after)) :
    ∃ stage master materials later, Stage.ofDescription description = .ok stage ∧
      primPath name = .ok master ∧ arguments.mapM primPath = .ok materials ∧
      masterStage stage master arguments set = .ok later ∧
      folder.write out later.describe.text = .ok after ∧
      Stage.ofDescription later.describe = .ok later ∧
      (Json.ofText? later.describe.text = some later.describe.toJson →
        Stage.parse later.describe.text = .ok later) ∧
      ∀ place path spec, stage.spec? place path = some spec →
        later.spec? place path = some (if place = 0 then
          MasterVariant.written master (set.getD Material.variantSet) materials path spec
        else spec) := by
  obtain ⟨_, stage, master, later, hsame, hload, hname, hmade, hwritten⟩ := make_master_eq_ok h
  obtain rfl := Except.ok.inj (hread.symm.trans hsame)
  have hloaded : Stage.ofDescription description = .ok stage := by
    rwa [Stage.parse, hparse] at hload
  obtain ⟨hspecializes, hselections, htarget⟩ := Stage.checked_of_loaded hloaded
  obtain ⟨hextends, materials, hmaterials, hspecs⟩ := extends_to_of_master_stage htarget
    (PrimPath.spellable_of_parse (prim_path_eq_ok.mp hname)) hselections hmade
  have hwritable :=
    Stage.writable_of_loaded hloaded hrange (SceneDescription.spellable_of_parse hparse)
  obtain ⟨hreload, htext⟩ := hextends.reloads hwritable hspecializes hselections htarget
  exact ⟨stage, master, materials, later, hloaded, hname, hmaterials, hmade, hwritten, hreload,
    htext, hspecs⟩

/-- The scene of a material and of a prim with a variant that is selected. -/
def selectedText : String :=
  "\x7b\"layers\":[\x7b\"identifier\":\"\",\"prims\":[" ++
    "\x7b\"path\":\"/A\",\"type\":\"Material\"\x7d," ++
    "\x7b\"path\":\"/M\",\"variantSets\":[\x7b\"name\":\"v\",\"variants\":[\"x\"]\x7d]," ++
      "\"variantSelection\":\x7b\"v\":\"x\"\x7d\x7d]\x7d]\x7d"

/-- A folder with its scene file. -/
def selectedFolder : Folder := ⟨.ofList [("s", selectedText)]⟩

/-- The description that the file spells. -/
def selectedDescription : SceneDescription where
  layers := [⟨"", [
    ⟨⟨[.plain "A"]⟩, .define, some "Material", .empty, [], [], none, [], .empty⟩,
    ⟨⟨[.plain "M"]⟩, .define, none, .empty, [], [], none, [⟨"v", ["x"]⟩],
      .ofList [("v", "x")]⟩]⟩]

/-- The stage that it stands for. -/
def selectedScene : Stage :=
  .ofLayers [⟨"", .ofList [
    (⟨[.plain "A"]⟩, { PrimSpec.blank .define with typeName := some "Material" }),
    (⟨[.plain "M"]⟩, { PrimSpec.blank .define with
      variantSets := [⟨"v", ["x"]⟩], variantSelection := .ofList [("v", "x")] })]⟩]

/-- A master is made of the prim. What is saved is loaded again, and the selection and the material
are still there. -/
theorem selected_master_reloads :
    ∃ after later,
      selectedFolder.attempt (makeMaster Folder.access "s" "o" "/M" ["/A"] (some "v")) =
        (.ok ["Wrote 1 variants on /M to o"], after) ∧
      selectedFolder.write "o" later.describe.text = .ok after ∧
      Stage.ofDescription later.describe = .ok later ∧
      later.spec? 0 ⟨[.plain "M"]⟩ = some { PrimSpec.blank .define with
        variantSets := [⟨"v", ["x", "A"]⟩], variantSelection := .ofList [("v", "x")] } ∧
      later.spec? 0 ⟨[.plain "A"]⟩ =
        some { PrimSpec.blank .define with typeName := some "Material" } := by
  have hread : selectedFolder.read "s" = .ok selectedText := by decide +kernel
  have hparse : SceneDescription.parse selectedText = .ok selectedDescription := by
    decide +kernel
  have hrange : selectedDescription.InRange := by decide
  have hscene : Stage.ofDescription selectedDescription = .ok selectedScene := by decide +kernel
  have hlines : (selectedFolder.attempt (makeMaster Folder.access "s" "o" "/M" ["/A"]
      (some "v"))).1 = .ok ["Wrote 1 variants on /M to o"] := by decide +kernel
  obtain ⟨after, hafter⟩ : ∃ after, (selectedFolder.attempt (makeMaster Folder.access "s" "o" "/M"
      ["/A"] (some "v"))).2 = after := ⟨_, rfl⟩
  have hrun : selectedFolder.attempt (makeMaster Folder.access "s" "o" "/M" ["/A"] (some "v")) =
      (.ok ["Wrote 1 variants on /M to o"], after) := Prod.ext hlines hafter
  obtain ⟨stage, master, materials, later, hload, hmaster, hmaterials, -, hwritten, hreload, -,
    hspecs⟩ := saved_master_reloads hread hparse hrange hrun
  obtain rfl := Except.ok.inj (hscene.symm.trans hload)
  obtain rfl := Except.ok.inj (hmaster.symm.trans
    (show primPath "/M" = .ok ⟨[.plain "M"]⟩ by decide +kernel))
  obtain rfl := Except.ok.inj (hmaterials.symm.trans
    (show ["/A"].mapM primPath = .ok [⟨[.plain "A"]⟩] by decide +kernel))
  refine ⟨after, later, hrun, hwritten, hreload, ?_, ?_⟩
  · exact hspecs 0 ⟨[.plain "M"]⟩ _ rfl
  · exact hspecs 0 ⟨[.plain "A"]⟩ _ rfl

end CommandLine

end LayeredShading
