import LayeredShading.Proofs.Network.BaseMaterial

/-!
# Setting a base material

A base material is refused exactly if what it specializes, directly or indirectly, comes to the
material or to a prim above or below it; the search for this ends on every stage, also where prims
specialize each other in a cycle. Whatever the reason, a base that is refused has changed nothing,
and one that is set has changed a single list of a single spec (`Material.set_base_exact`).
-/

namespace LayeredShading

/-! ## Programs that change nothing if they fail -/

namespace Edit

variable {α β : Type} {stage after : Stage}

/-- A program changes nothing if it fails, and its error is one of some. -/
def Refuses (errors : Error → Prop) (program : Edit α) : Prop :=
  ∀ (stage : Stage) error after, program.run stage = .error error after →
    after = stage ∧ errors error

/-- What follows a program that only reads runs on the same stage. -/
theorem Refuses.bind {errors : Error → Prop} {program : Edit α} {next : α → Edit β}
    (hreads : ReadsOnly program) (h : Refuses errors program)
    (hnext : ∀ value, Refuses errors (next value)) : Refuses errors (program >>= next) := by
  intro stage error after herror
  cases hrun : program.run stage with
  | ok value between =>
      obtain rfl := hreads.run_eq_ok hrun
      rw [run_bind_of_ok hrun] at herror
      exact hnext value between error after herror
  | error own between =>
      rw [run_bind_of_error hrun] at herror
      cases herror
      exact h stage error after hrun

theorem refuses_pure {errors : Error → Prop} (value : α) : Refuses errors (pure value) := nofun

theorem refuses_throw {errors : Error → Prop} {error : Error} (h : errors error) :
    Refuses errors (throw error : Edit α) := by
  intro stage other after herror
  cases herror
  exact ⟨rfl, h⟩

theorem refuses_check {errors : Error → Prop} {checked : Except Error α}
    (h : ∀ error, checked = .error error → errors error) : Refuses errors (check checked) := by
  cases checked with
  | ok value => exact refuses_pure value
  | error error => exact refuses_throw (h error rfl)

/-- The rounds of a loop that only reads run on the same stage. -/
theorem Refuses.forM {errors : Error → Prop} {list : List α} {body : α → Edit PUnit}
    (hreads : ∀ element, ReadsOnly (body element)) (h : ∀ element, Refuses errors (body element)) :
    Refuses errors (list.forM body) := by
  induction list with
  | nil => exact refuses_pure _
  | cons head rest ih => exact .bind (hreads head) (h head) fun _ => ih

/-- That a prim is missing is the only error of requiring it. -/
theorem refuses_require_prim {errors : Error → Prop} {path : PrimPath}
    (h : errors (.primNotFound path.text)) : Refuses errors (requirePrim path) := by
  refine .bind reads_only_get nofun fun stage => ?_
  split
  next => exact refuses_pure _
  next => exact refuses_throw h

theorem refuses_change_spec {errors : Error → Prop} (path : PrimPath) (specifier : Specifier)
    (change : PrimSpec → PrimSpec) (h : ∀ index count, errors (.layerOutOfBounds index count)) :
    Refuses errors (changeSpec path specifier change) := by
  refine .bind reads_only_get nofun fun stage => ?_
  show Refuses errors (if stage.target.layer < stage.layers.length then _ else _)
  split
  next => exact nofun
  next => exact refuses_throw (h _ _)

/-- Setting what a prim specializes changes nothing if it fails, and never fails for a cycle. -/
theorem refuses_set_specializes (path : PrimPath) (sources : List PrimPath) :
    Refuses (fun error => ∀ material base, error ≠ .baseMaterialCycle material base)
      (setSpecializes path sources) := by
  refine .bind (.forM fun source _ => reads_only_check _)
    (.forM (fun _ => reads_only_check _) fun source => refuses_check fun error herror => ?_)
    fun _ => .bind (reads_only_require_prim path) (refuses_require_prim (by simp))
      fun _ => refuses_change_spec path _ _ (by simp)
  rw [PrimPath.requireScenePath] at herror
  split at herror
  · obtain rfl := Except.error.inj herror
    simp
  · cases herror

end Edit

namespace Material

variable {stage after : Stage} {material base : PrimPath}

/-- A base that would close a cycle is refused for that; any other is set as the only prim that the
material specializes. -/
theorem run_set_base : (setBase material base).run stage =
    if wouldCycle stage material base then
      .error (.baseMaterialCycle material.text base.text) stage
    else (Edit.setSpecializes material [base]).run stage := by
  have hget : (get : Edit Stage).run stage = .ok stage stage := rfl
  rw [setBase, Edit.run_bind_of_ok hget]
  cases wouldCycle stage material base <;> rfl

/-- A base is refused for a cycle exactly if it would close one. -/
theorem run_set_base_eq_cycle_iff :
    (∃ first second after, (setBase material base).run stage =
      .error (.baseMaterialCycle first second) after) ↔ wouldCycle stage material base = true := by
  rw [run_set_base]
  cases hcycle : wouldCycle stage material base with
  | true => exact iff_of_true ⟨_, _, _, rfl⟩ rfl
  | false =>
      refine iff_of_false ?_ Bool.false_ne_true
      rintro ⟨first, second, after, herror⟩
      exact (Edit.refuses_set_specializes _ _ _ _ _ herror).2 first second rfl

/-- Setting a base changes nothing if it fails. -/
theorem eq_of_run_set_base_eq_error {error : Error}
    (h : (setBase material base).run stage = .error error after) : after = stage := by
  rw [run_set_base] at h
  split at h
  next =>
    cases h
    rfl
  next => exact (Edit.refuses_set_specializes _ _ _ _ _ h).1

/-- The check of a base material is exact, whatever prims specialize in the stage, also in cycles.
The search ends: more visits than it has would find nothing more. The base is refused for a cycle
exactly if what it specializes, directly or indirectly, comes to the material or to a prim above or
below it. If it is refused, for this or another reason, the stage stays as it is; if it is set, the
spec of the material at the edit target, made if there is none, specializes the base alone, and all
else is as before. -/
theorem set_base_exact (stage : Stage) (material base : PrimPath) :
    (∀ more, reachable stage.specialized (specializedCount stage.layers + 1 + more) [base] =
      lineage stage base) ∧
    ((∃ first second after, (setBase material base).run stage =
        .error (.baseMaterialCycle first second) after) ↔
      ∃ prim, Relation.ReflTransGen stage.Specializes base prim ∧
        (prim.isUnder material = true ∨ material.isUnder prim = true)) ∧
    (∀ error after, (setBase material base).run stage = .error error after → after = stage) ∧
    ∀ after, (setBase material base).run stage = .ok () after →
      after.target = stage.target ∧ after.layerIdentifiers = stage.layerIdentifiers ∧
        ∀ place path, after.spec? place path =
          if place = stage.target.layer ∧ path = stage.target.specPath material then
            some { (stage.spec? place path).getD (.blank .override) with
              specializes := some [base] }
          else stage.spec? place path := by
  refine ⟨lineage_stable base, ?_, fun _ _ => eq_of_run_set_base_eq_error, fun after hrun => ?_⟩
  · rw [run_set_base_eq_cycle_iff, would_cycle_iff]
    simp only [PrimPath.overlaps, Bool.or_eq_true]
  · rw [run_set_base] at hrun
    split at hrun
    next => cases hrun
    next =>
      obtain ⟨hbase, hprim, hlayer, rfl⟩ := Edit.run_set_specializes_eq_ok.mp hrun
      have hwrites := Operation.Writes.made (.setSpecializes hbase hprim) hlayer
      refine ⟨hwrites.target_eq, hwrites.identifiers_eq, fun place path => ?_⟩
      rw [Stage.spec_changed hlayer]
      split
      next hhere =>
        obtain ⟨rfl, rfl⟩ := hhere
        simp only [Specifier.join_override]
      next => rfl

/-- Two materials that specialize each other, a third one with a prim below it, and a fourth one
that specializes the first and that prim. -/
def entangled : Stage :=
  .ofLayers [⟨"root", .ofList [
    (⟨[.plain "A"]⟩, { PrimSpec.blank .define with
      typeName := some "Material", specializes := some [⟨[.plain "B"]⟩] }),
    (⟨[.plain "B"]⟩, { PrimSpec.blank .define with
      typeName := some "Material", specializes := some [⟨[.plain "A"]⟩] }),
    (⟨[.plain "M"]⟩, { PrimSpec.blank .define with typeName := some "Material" }),
    (⟨[.plain "M", .plain "S"]⟩, .blank .define),
    (⟨[.plain "X"]⟩, { PrimSpec.blank .define with
      typeName := some "Material",
      specializes := some [⟨[.plain "A"]⟩, ⟨[.plain "M", .plain "S"]⟩] })]⟩]

/-- The first one may become the base of the third one, in spite of the cycle that it is in. The
fourth one may not, as it specializes, behind that cycle, the prim below the third one. -/
theorem entangled_bases_checked :
    (∃ after, (setBase ⟨[.plain "M"]⟩ ⟨[.plain "A"]⟩).run entangled = .ok () after ∧
      after.spec? 0 ⟨[.plain "M"]⟩ = some { PrimSpec.blank .define with
        typeName := some "Material", specializes := some [⟨[.plain "A"]⟩] }) ∧
    ∃ first second, (setBase ⟨[.plain "M"]⟩ ⟨[.plain "X"]⟩).run entangled =
      .error (.baseMaterialCycle first second) entangled := by
  constructor
  · have hrun : (setBase ⟨[.plain "M"]⟩ ⟨[.plain "A"]⟩).run entangled = .ok () _ :=
      Edit.run_eq_ok_after (by decide)
    refine ⟨_, hrun, ?_⟩
    obtain ⟨-, -, -, hset⟩ := set_base_exact entangled ⟨[.plain "M"]⟩ ⟨[.plain "A"]⟩
    rw [(hset _ hrun).2.2, if_pos (by decide)]
    decide
  · obtain ⟨-, hcycle, hkept, -⟩ := set_base_exact entangled ⟨[.plain "M"]⟩ ⟨[.plain "X"]⟩
    have hstep : entangled.Specializes ⟨[.plain "X"]⟩ ⟨[.plain "M", .plain "S"]⟩ :=
      Stage.mem_specialized_iff.mp (by decide)
    obtain ⟨first, second, after, herror⟩ :=
      hcycle.mpr ⟨⟨[.plain "M", .plain "S"]⟩, .single hstep, by decide⟩
    obtain rfl := hkept _ _ herror
    exact ⟨first, second, herror⟩

end Material

end LayeredShading
