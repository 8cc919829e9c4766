import LayeredShading.Proofs.Composition.Extent

/-!
# Children compose

A composed prim lists the names of the specs that stand directly below the sites of its opinions.
`ArcChain.push` replays the chain of arcs that leads to such an opinion one level lower: arcs of
the prims on the way are arcs of the child as well, and so are the choices made on the way. Hence
every listed child composes (`compose_push`). Conversely, the chain to an opinion on a child is
replayed one level higher, up to the first path where the child has a spec of its own
(`exists_below_of_gather_push`). That spec stands below a site of the prim, which lists the child if
there is a spec at the site, too.
-/

namespace LayeredShading

namespace Opinion

variable {layers : List Layer}

/-- A layer lists a name below a site exactly if it has a spec for that child. -/
theorem mem_child_names {layer : Layer} {site : PrimPath} {name : String} :
    name ∈ layer.childNames site ↔ (layer.spec? (site.push name)).isSome = true := by
  have hkey : (layer.spec? (site.push name)).isSome = true ↔ site.push name ∈ layer.specs.keys := by
    rw [Option.isSome_iff_exists, SortedMap.mem_keys_iff]
    rfl
  rw [hkey]
  simp only [Layer.childNames, List.mem_filterMap, List.mem_filter, Bool.and_eq_true,
    Bool.not_eq_true', beq_iff_eq]
  constructor
  · rintro ⟨path, ⟨hpath, hchild⟩, hname⟩
    obtain ⟨other, rfl⟩ := PrimPath.is_child_iff.mp hchild
    obtain rfl : other = name := by
      simpa [PrimPath.name?, PrimPath.push, Segment.plain] using hname
    exact hpath
  · intro hmem
    refine ⟨site.push name, ⟨hmem, PrimPath.is_child_iff.mpr ⟨name, rfl⟩⟩, ?_⟩
    simp [PrimPath.name?, PrimPath.push, Segment.plain]

/-- What stands below a site of a prim stands at a site of the child. -/
theorem Stands.push {layer : Layer} {site path : PrimPath} (h : Stands layers layer site path)
    {name : String} (hname : name ∈ layer.childNames site) :
    Stands layers layer (site.push name) (path.push name) := by
  refine ⟨h.layer_mem, ?_, mem_child_names.mp hname⟩
  rcases mem_local_sites.mp h.site_mem with rfl | ⟨depth, choice, hmem, hle, rfl⟩
  · exact mem_local_sites.mpr (.inl rfl)
  · -- The choice was made on the way to the prim, which is also on the way to the child.
    refine mem_local_sites.mpr (.inr ⟨depth, choice, ?_, ?_, ?_⟩)
    · simp only [selectionsOn, PrimPath.ancestry_push, List.flatMap_append, List.mem_append]
      exact .inl hmem
    · simp only [PrimPath.depth_push]
      omega
    · exact (PrimPath.choose_append hle _ choice).symm

/-- An arc from a prim is an arc from every child. -/
theorem mem_arcs_from_push {path : PrimPath} {arc : Arc} (h : arc ∈ arcsFrom layers path)
    (name : String) : arc ∈ arcsFrom layers (path.push name) := by
  rw [arcs_from_eq] at h ⊢
  simp only [PrimPath.ancestry_push, List.reverse_append, List.flatMap_append,
    List.mem_append] at h ⊢
  exact h.imp .inr .inr

theorem ArcStep.push {path source : PrimPath} (h : ArcStep layers path source) (name : String) :
    ArcStep layers (path.push name) (source.push name) := by
  obtain ⟨arc, harc, hmoved⟩ := h
  obtain ⟨rest, rfl, rfl⟩ := PrimPath.relocate_eq_some_iff.mp hmoved
  refine ⟨arc, mem_arcs_from_push harc name, ?_⟩
  simp only [PrimPath.push_append, PrimPath.relocate_append]

/-- A chain of arcs from a prim leads in parallel from its children. -/
theorem ArcChain.push {chain : List PrimPath} (h : ArcChain layers chain) (name : String) :
    ArcChain layers (chain.map fun path => path.push name) := by
  refine ⟨List.isChain_map_of_isChain _ (fun _ _ hstep => hstep.push name) h.linked, ?_⟩
  exact h.distinct.map fun _ _ hsame => (PrimPath.push_inj.mp hsame).1

/-- If an opinion on a prim lists a name, there is an opinion on that child. -/
theorem gather_push_ne_nil {path : PrimPath} {opinion : Opinion}
    (h : opinion ∈ gather layers path) {name : String} (hname : name ∈ opinion.childNames) :
    gather layers (path.push name) ≠ [] := by
  obtain ⟨rest, hchain, hlength, -, hstands⟩ :=
    exists_mem_gather_within_iff.mp ⟨opinion, h, rfl, rfl⟩
  -- The chain to the opinion is replayed one level lower, with as many steps.
  refine gather_ne_nil_iff.mpr ⟨rest.map fun path => path.push name, opinion.layer,
    opinion.site.push name, by simpa using hchain.push name, by simpa using hlength, ?_⟩
  have hlast : (path.push name :: rest.map fun path => path.push name).getLast
      (List.cons_ne_nil _ _) =
        ((path :: rest).getLast (List.cons_ne_nil path rest)).push name :=
    @List.getLast_map _ _ (fun above : PrimPath => above.push name) (path :: rest) (by simp)
  rw [hlast]
  exact hstands.push hname

/-! ### What stands below a prim -/

/-- A spec stands below a site of a prim. -/
def Below (layers : List Layer) (path : PrimPath) (name : String) : Prop :=
  ∃ layer ∈ layers, ∃ site ∈ localSites layers path, (layer.spec? (site.push name)).isSome = true

/-- A choice at a prim is made by a spec at the path of the prim. -/
theorem exists_spec_of_mem_choices_at {prim : PrimPath} {choice : VariantChoice}
    (h : choice ∈ choicesAt layers prim) :
    ∃ layer ∈ layers, (layer.spec? prim).isSome = true := by
  rw [choicesAt] at h
  obtain ⟨spec, hspec, -⟩ := List.any_eq_true.mp (List.mem_filter.mp h).2
  obtain ⟨layer, hlayer, hauthored⟩ := List.mem_filterMap.mp hspec
  exact ⟨layer, hlayer, Option.isSome_of_eq_some hauthored⟩

/-- What stands on a child stands below a site of the prim, or is chosen by what does. -/
theorem Stands.below {layer : Layer} {site path : PrimPath} {name : String}
    (h : Stands layers layer site (path.push name)) : Below layers path name := by
  cases mem_local_sites.mp h.site_mem with
  | inl hself =>
      exact ⟨layer, h.layer_mem, path, mem_local_sites.mpr (.inl rfl), hself ▸ h.authored⟩
  | inr hchosen =>
      obtain ⟨depth, choice, hmem, -, rfl⟩ := hchosen
      rw [selectionsOn, PrimPath.ancestry_push, List.flatMap_append, List.flatMap_singleton,
        List.mem_append] at hmem
      cases hmem with
      | inl hmem =>
          -- The choice is made on the way to the prim, so it makes a site of the prim.
          obtain ⟨above, habove, hpair⟩ := List.mem_flatMap.mp hmem
          obtain ⟨_, -, hsame⟩ := List.mem_map.mp hpair
          have hdepth : depth ≤ path.depth := by
            obtain ⟨-, rest, rfl⟩ := PrimPath.mem_ancestry_iff.mp habove
            rw [← (Prod.mk.inj hsame).1, PrimPath.depth_append]
            omega
          refine ⟨layer, h.layer_mem, path.choose depth choice,
            mem_local_sites.mpr (.inr ⟨depth, choice, hmem, hdepth, rfl⟩), ?_⟩
          have hauthored := h.authored
          rwa [PrimPath.push_eq_append, PrimPath.choose_append hdepth] at hauthored
      | inr hmem =>
          -- The choice is made at the child, by a spec at its path.
          obtain ⟨_, hchoice, -⟩ := List.mem_map.mp hmem
          obtain ⟨other, hother, hauthored⟩ := exists_spec_of_mem_choices_at hchoice
          exact ⟨other, hother, path, mem_local_sites.mpr (.inl rfl), hauthored⟩

/-- An arc from a child is one of its own or an arc from the prim. -/
theorem owner_eq_or_mem_arcs_from {path : PrimPath} {name : String} {arc : Arc}
    (h : arc ∈ arcsFrom layers (path.push name)) :
    arc.owner = path.push name ∨ arc ∈ arcsFrom layers path := by
  have howner : ∀ sources, arc ∈ ownArcs layers sources (path.push name) →
      arc.owner = path.push name := by
    intro sources hmem
    obtain ⟨_, -, rfl⟩ := List.mem_map.mp hmem
    rfl
  rw [arcs_from_eq] at h ⊢
  simp only [PrimPath.ancestry_push, List.reverse_append, List.reverse_singleton,
    List.flatMap_append, List.flatMap_singleton, List.mem_append] at h ⊢
  rcases h with (hown | habove) | (hown | habove)
  · exact .inl (howner _ hown)
  · exact .inr (.inl habove)
  · exact .inl (howner _ hown)
  · exact .inr (.inr habove)

/-- A step from a child is one from the prim, taken one level lower, if no spec stands on the
child. -/
theorem ArcStep.of_push {path source : PrimPath} {name : String}
    (h : ArcStep layers (path.push name) source) :
    Below layers path name ∨ ∃ moved, source = moved.push name ∧ ArcStep layers path moved := by
  obtain ⟨arc, harc, hmoved⟩ := h
  cases owner_eq_or_mem_arcs_from harc with
  | inl hown =>
      obtain ⟨layer, site, hstands⟩ := exists_stands_of_mem_arcs_from harc
      rw [hown] at hstands
      exact .inl hstands.below
  | inr habove =>
      obtain ⟨-, rest, rfl⟩ := PrimPath.mem_ancestry_iff.mp (exists_of_mem_arcs_from habove).1
      rw [PrimPath.push_append, PrimPath.relocate_append] at hmoved
      refine .inr ⟨arc.source.append rest, ?_, arc, habove, PrimPath.relocate_append _ _ _⟩
      rw [PrimPath.push_append]
      exact (Option.some.inj hmoved).symm

/-- A chain of arcs from a child to a spec is replayed from the prim, until a spec stands below. -/
theorem ArcChain.of_push {path : PrimPath} {name : String} {rest : List PrimPath}
    (h : ArcChain layers (path.push name :: rest)) {layer : Layer} {site : PrimPath}
    (hstands : Stands layers layer site
      ((path.push name :: rest).getLast (List.cons_ne_nil (path.push name) rest))) :
    ∃ others, ArcChain layers (path :: others) ∧ others.length ≤ rest.length ∧
      (∀ met ∈ path :: others, met.push name ∈ path.push name :: rest) ∧
      Below layers ((path :: others).getLast (List.cons_ne_nil path others)) name := by
  induction rest generalizing path with
  | nil => exact ⟨[], .singleton path, Nat.le_refl 0, by simp, hstands.below⟩
  | cons source rest ih =>
      cases h.step.of_push with
      | inl hbelow => exact ⟨[], .singleton path, Nat.zero_le _, by simp, hbelow⟩
      | inr hstep =>
          obtain ⟨moved, rfl, hstep⟩ := hstep
          rw [List.getLast_cons (List.cons_ne_nil (moved.push name) rest)] at hstands
          obtain ⟨others, hchain, hlength, hmet, hbelow⟩ := ih h.tail hstands
          have hnew : path ∉ moved :: others :=
            fun hmem => (List.nodup_cons.mp h.distinct).1 (hmet path hmem)
          refine ⟨moved :: others, .cons hstep hchain hnew, Nat.succ_le_succ hlength, ?_, ?_⟩
          · exact List.forall_mem_cons.mpr
              ⟨List.mem_cons_self, fun met hmem => List.mem_cons_of_mem _ (hmet met hmem)⟩
          · rw [List.getLast_cons (List.cons_ne_nil moved others)]
            exact hbelow

/-- If there is an opinion on a child, then a chain of arcs leads from the prim to a place below
which a spec stands. -/
theorem exists_below_of_gather_push {path : PrimPath} {name : String}
    (h : gather layers (path.push name) ≠ []) :
    ∃ rest, ArcChain layers (path :: rest) ∧ rest.length < maxArcDepth ∧
      Below layers ((path :: rest).getLast (List.cons_ne_nil path rest)) name := by
  obtain ⟨rest, layer, site, hchain, hlength, hstands⟩ := gather_ne_nil_iff.mp h
  obtain ⟨others, hothers, hshorter, -, hbelow⟩ := hchain.of_push hstands
  exact ⟨others, hothers, Nat.lt_of_le_of_lt hshorter hlength, hbelow⟩

end Opinion

variable {layers : List Layer}

/-- Every child that a composed prim lists composes. -/
theorem compose_push {path : PrimPath} {prim : ComposedPrim} (h : compose layers path = some prim)
    {name : String} (hname : name ∈ prim.children) :
    (compose layers (path.push name)).isSome = true := by
  obtain ⟨-, hplain, -⟩ := compose_is_some_iff.mp (Option.isSome_of_eq_some h)
  rw [compose_eq_some h] at hname
  simp only [ComposedPrim.ofSpec, mem_addAllNew, List.not_mem_nil, false_or,
    List.mem_flatMap] at hname
  obtain ⟨opinion, hopinion, hname⟩ := hname
  refine compose_is_some_iff.mpr ⟨?_, by simpa using hplain,
    Opinion.gather_push_ne_nil hopinion hname⟩
  rw [PrimPath.is_root_eq_false_iff]
  simp

/-- Every child of the root composes. -/
theorem compose_root_push {name : String} (h : name ∈ rootChildren layers) :
    (compose layers (PrimPath.root.push name)).isSome = true := by
  simp only [rootChildren, mem_addAllNew, List.not_mem_nil, false_or, List.mem_flatMap] at h
  obtain ⟨layer, hlayer, hname⟩ := h
  refine compose_is_some_iff.mpr ⟨rfl, rfl, Opinion.gather_ne_nil_iff.mpr
    ⟨[], layer, PrimPath.root.push name, .singleton _, by decide, hlayer, ?_, ?_⟩⟩
  · exact Opinion.mem_local_sites.mpr (.inl rfl)
  · exact Opinion.mem_child_names.mp hname

end LayeredShading
