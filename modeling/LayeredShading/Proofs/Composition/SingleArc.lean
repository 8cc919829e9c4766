import LayeredShading.Proofs.Composition.ArcChain

/-!
# Prims with a single arc

Where only one prim on the way to a path declares an arc and selects variants, the opinions on the
path are its own specs, those in the selected variants, and what is gathered at the place that the
arc leads to. `arcs_from_of_single_target` finds the arc, `local_sites_of_single_chooser` the sites,
and `gather_of_single_target` puts the two together. That nothing leads back from the source to the
prim is not assumed: it follows when no arc leads to a prim above or below the owner
(`not_reaches_owner`).
-/

namespace LayeredShading

namespace Opinion

variable {layers : List Layer}

/-- Of all elements of a list without repetition only one has an image. -/
theorem flat_map_of_unique {α β : Type} {list : List α} {image : α → List β} {only : α}
    (hdistinct : list.Nodup) (hmem : only ∈ list)
    (hothers : ∀ other ∈ list, other ≠ only → image other = []) :
    list.flatMap image = image only := by
  obtain ⟨front, back, rfl⟩ := List.append_of_mem hmem
  obtain ⟨-, hback, hfront⟩ := List.nodup_append.mp hdistinct
  have hfrontNil : front.flatMap image = [] := by
    rw [List.flatMap_eq_nil_iff]
    intro other hother
    exact hothers other (by simp [hother]) (hfront other hother only List.mem_cons_self)
  have hbackNil : back.flatMap image = [] := by
    rw [List.flatMap_eq_nil_iff]
    intro other hother
    refine hothers other (by simp [hother]) ?_
    rintro rfl
    exact (List.nodup_cons.mp hback).1 hother
  rw [List.flatMap_append, List.flatMap_cons, hfrontNil, hbackNil, List.nil_append,
    List.append_nil]

/-! ## Sites -/

/-- The choices with those added that a spec makes in other sets. -/
def withSelections (selected : List VariantChoice) (spec : PrimSpec) : List VariantChoice :=
  selected ++
    (spec.variantSelection.entries.map fun entry => VariantChoice.mk entry.1 entry.2).filter
      fun choice => !selected.any fun other => other.set == choice.set

/-- The choices of the specs are made one after the other, and only declared ones count. -/
theorem choices_at_eq (prim : PrimPath) :
    choicesAt layers prim = ((specsAt layers prim).foldl withSelections []).filter fun choice =>
      (specsAt layers prim).any fun spec => spec.declares choice := rfl

/-- A choice is made exactly if it was made before, or if none was made in its set and the first
spec that selects a variant there selects this one. -/
theorem mem_foldl_with_selections_iff {specs : List PrimSpec} {selected : List VariantChoice}
    {choice : VariantChoice} :
    choice ∈ specs.foldl withSelections selected ↔ choice ∈ selected ∨
      (∀ other ∈ selected, other.set ≠ choice.set) ∧
        specs.findSome? (·.variantSelection.get? choice.set) = some choice.variant := by
  induction specs generalizing selected with
  | nil => simp
  | cons spec rest ih =>
      have hmem : ∀ other : VariantChoice, other ∈ withSelections selected spec ↔
          other ∈ selected ∨ spec.variantSelection.get? other.set = some other.variant ∧
            ∀ made ∈ selected, made.set ≠ other.set := by
        intro other
        simp only [withSelections, List.mem_append, List.mem_filter, List.mem_map,
          SortedMap.get?_eq_some_iff, Bool.not_eq_true', List.any_eq_false, beq_iff_eq]
        refine or_congr_right (and_congr_left fun _ => ?_)
        constructor
        · rintro ⟨_, hentry, rfl⟩
          exact hentry
        · exact fun hentry => ⟨_, hentry, rfl⟩
      rw [List.foldl_cons, ih, hmem, List.findSome?_cons]
      cases hown : spec.variantSelection.get? choice.set with
      | none =>
          -- what the spec selects is in other sets
          have hsets : (∀ made ∈ withSelections selected spec, made.set ≠ choice.set) ↔
              ∀ made ∈ selected, made.set ≠ choice.set := by
            refine ⟨fun h made hmade => h made ((hmem made).mpr (.inl hmade)), ?_⟩
            intro h made hmade
            rcases (hmem made).mp hmade with hmade | ⟨hselected, -⟩
            · exact h made hmade
            · intro hsame
              rw [hsame, hown] at hselected
              cases hselected
          simp [hsets]
      | some variant =>
          by_cases hset : ∀ made ∈ selected, made.set ≠ choice.set
          · -- the set is taken now, so the specs after this one do not count
            have htaken : ¬ ∀ made ∈ withSelections selected spec, made.set ≠ choice.set :=
              fun h => h ⟨choice.set, variant⟩ ((hmem _).mpr (.inr ⟨hown, hset⟩)) rfl
            simp only [htaken, false_and, or_false]
            tauto
          · have htaken : ¬ ∀ made ∈ withSelections selected spec, made.set ≠ choice.set :=
              fun h => hset fun made hmade => h made ((hmem made).mpr (.inl hmade))
            simp [htaken, hset]

/-- Specs that select nothing add no choice. -/
theorem foldl_with_selections_of_empty {specs : List PrimSpec} (selected : List VariantChoice)
    (h : ∀ spec ∈ specs, spec.variantSelection = .empty) :
    specs.foldl withSelections selected = selected := by
  induction specs with
  | nil => rfl
  | cons spec rest ih =>
      have hfirst : withSelections selected spec = selected := by
        rw [withSelections, h spec List.mem_cons_self]
        exact List.append_nil selected
      rw [List.foldl_cons, hfirst]
      exact ih fun other hother => h other (List.mem_cons_of_mem _ hother)

/-- Specs that select nothing make no choice. -/
theorem choices_at_eq_nil {prim : PrimPath}
    (h : ∀ spec ∈ specsAt layers prim, spec.variantSelection = .empty) :
    choicesAt layers prim = [] := by
  rw [choices_at_eq, foldl_with_selections_of_empty [] h, List.filter_nil]

/-- Where one spec alone selects a variant, and declares it, that is the choice. -/
theorem choices_at_of_single_selection {prim : PrimPath} {front back : List PrimSpec}
    {spec : PrimSpec} {choice : VariantChoice}
    (hspecs : specsAt layers prim = front ++ spec :: back)
    (hothers : ∀ other ∈ front ++ back, other.variantSelection = .empty)
    (hselection : spec.variantSelection = SortedMap.empty.insert choice.set choice.variant)
    (hdeclares : spec.declares choice = true) : choicesAt layers prim = [choice] := by
  have hfront : front.foldl withSelections [] = [] :=
    foldl_with_selections_of_empty [] fun other hother => hothers other (by simp [hother])
  have hback : back.foldl withSelections [choice] = [choice] :=
    foldl_with_selections_of_empty [choice] fun other hother => hothers other (by simp [hother])
  have hown : withSelections [] spec = [choice] := by
    rw [withSelections, hselection]
    rfl
  have hselected : (specsAt layers prim).foldl withSelections [] = [choice] := by
    rw [hspecs, List.foldl_append, List.foldl_cons, hfront, hown, hback]
  rw [choices_at_eq, hselected]
  simp [hspecs, hdeclares]

/-- Where no choice is made on the way, all opinions stand at the path itself. -/
theorem local_sites_of_no_choice {path : PrimPath}
    (h : ∀ above ∈ path.ancestry, choicesAt layers above = []) :
    localSites layers path = [path] := by
  have hselections : selectionsOn layers path = [] := by
    rw [selectionsOn, List.flatMap_eq_nil_iff]
    intro above habove
    rw [h above habove, List.map_nil]
  rw [localSites, hselections]
  rfl

/-- Where only one prim on the way makes choices, opinions stand at the path itself and within the
variants that are chosen there. -/
theorem local_sites_of_single_chooser {prim : PrimPath} {rest : List Segment}
    (hpos : 0 < prim.depth)
    (h : ∀ above ∈ (prim.append rest).ancestry, above ≠ prim → choicesAt layers above = []) :
    localSites layers (prim.append rest) = prim.append rest ::
      (choicesAt layers prim).map fun choice => (prim.append rest).choose prim.depth choice := by
  have hselections : selectionsOn layers (prim.append rest) =
      (choicesAt layers prim).map (prim.depth, ·) := by
    refine flat_map_of_unique (PrimPath.ancestry_nodup _)
      (PrimPath.mem_ancestry_iff.mpr ⟨hpos, rest, rfl⟩) ?_
    intro above habove hne
    rw [h above habove hne, List.map_nil]
  have hreached : ∀ selection ∈ (choicesAt layers prim).map (prim.depth, ·),
      decide (selection.1 ≤ (prim.append rest).depth) = true := by
    intro selection hselection
    obtain ⟨choice, -, rfl⟩ := List.mem_map.mp hselection
    simp
  rw [localSites, sites, hselections, List.filter_eq_self.mpr hreached, List.map_map]
  rfl

/-- Above the only prim that makes choices, the specs of a prim stand at its path. -/
theorem specs_on_of_above {prim other : PrimPath} (hunder : prim.isUnder other = true)
    (hne : other ≠ prim)
    (h : ∀ above ∈ prim.ancestry, above ≠ prim → choicesAt layers above = []) :
    specsOn layers other = specsAt layers other := by
  have hnone : ∀ above ∈ other.ancestry, choicesAt layers above = [] := by
    intro above habove
    refine h above (PrimPath.mem_ancestry_of_is_under hunder habove) ?_
    rintro rfl
    have hother : other.isUnder above = true :=
      PrimPath.is_under_iff.mpr (PrimPath.mem_ancestry_iff.mp habove).2
    exact hne (PrimPath.eq_of_is_under hother hunder)
  rw [specsOn, local_sites_of_no_choice hnone, List.flatMap_singleton]

/-! ## Arcs -/

/-- Specs that specialize nothing, whether or not they say so, give no prim to specialize. -/
theorem specialized_eq_nil {specs : List PrimSpec}
    (h : ∀ spec ∈ specs, spec.specializes.getD [] = []) : specialized specs = [] := by
  rw [specialized]
  cases hfirst : specs.findSome? (·.specializes) with
  | none => rfl
  | some sources =>
      obtain ⟨spec, hspec, hsources⟩ := List.exists_of_findSome?_eq_some hfirst
      simpa [hsources] using h spec hspec

/-- Specs without arcs declare none. -/
theorem own_arcs_eq_nil {owner : PrimPath}
    (h : ∀ spec ∈ specsOn layers owner, spec.arcTargets = []) :
    ownArcs layers references owner = [] ∧ ownArcs layers specialized owner = [] := by
  have hreferences : references (specsOn layers owner) = [] := by
    have hnone : (specsOn layers owner).flatMap (·.references) = [] := by
      rw [List.flatMap_eq_nil_iff]
      intro spec hspec
      exact (List.append_eq_nil_iff.mp (h spec hspec)).1
    rw [references, hnone]
    rfl
  have hspecialized : specialized (specsOn layers owner) = [] :=
    specialized_eq_nil fun spec hspec => (List.append_eq_nil_iff.mp (h spec hspec)).2
  rw [ownArcs, ownArcs, hreferences, hspecialized]
  exact ⟨rfl, rfl⟩

/-- Where no prim on the way declares arcs, none leads from the path. -/
theorem arcs_from_eq_nil {path : PrimPath}
    (h : ∀ owner ∈ path.ancestry, ∀ spec ∈ specsOn layers owner, spec.arcTargets = []) :
    arcsFrom layers path = [] := by
  rw [arcs_from_eq, List.append_eq_nil_iff, List.flatMap_eq_nil_iff, List.flatMap_eq_nil_iff]
  constructor
  · intro owner howner
    exact (own_arcs_eq_nil (h owner (List.mem_reverse.mp howner))).1
  · intro owner howner
    exact (own_arcs_eq_nil (h owner (List.mem_reverse.mp howner))).2

/-- Where only one prim on the way declares arcs, and only to one source, that is the arc. -/
theorem arcs_from_of_single_target {owner source : PrimPath} {rest : List Segment}
    (hpos : 0 < owner.depth)
    (hothers : ∀ other ∈ (owner.append rest).ancestry, other ≠ owner →
      ∀ spec ∈ specsOn layers other, spec.arcTargets = [])
    (htargets : references (specsOn layers owner) ++ specialized (specsOn layers owner) = [source])
    (hapart : source.overlaps owner = false) :
    arcsFrom layers (owner.append rest) = [⟨owner, source⟩] := by
  have hdistinct : (owner.append rest).ancestry.reverse.Nodup :=
    List.nodup_reverse.mpr (PrimPath.ancestry_nodup _)
  have howner : owner ∈ (owner.append rest).ancestry.reverse :=
    List.mem_reverse.mpr (PrimPath.mem_ancestry_iff.mpr ⟨hpos, rest, rfl⟩)
  have hnone : ∀ other ∈ (owner.append rest).ancestry.reverse, other ≠ owner →
      ownArcs layers references other = [] ∧ ownArcs layers specialized other = [] :=
    fun other hother hne => own_arcs_eq_nil (hothers other (List.mem_reverse.mp hother) hne)
  rw [arcs_from_eq,
    flat_map_of_unique hdistinct howner fun other hother hne => (hnone other hother hne).1,
    flat_map_of_unique hdistinct howner fun other hother hne => (hnone other hother hne).2,
    ownArcs, ownArcs, ← List.map_append, ← List.filter_append, htargets]
  simp [hapart]

/-- Where no arc leads from a prim, it has its direct opinions only. -/
theorem gather_of_no_arc {path : PrimPath} (harcs : arcsFrom layers path = []) :
    gather layers path = direct layers .identity path := by
  rw [gather, maxArcDepth, gatherWithin]
  simp [harcs]

/-- No arc leads to a prim above or below a path. -/
def Untargeted (layers : List Layer) (path : PrimPath) : Prop :=
  ∀ layer ∈ layers, ∀ entry ∈ layer.specs.entries, ∀ target ∈ entry.2.arcTargets,
    target.overlaps path = false

/-- What no arc leads to is not reached by arcs from elsewhere. -/
theorem not_reaches_owner {owner source : PrimPath} (huntargeted : Untargeted layers owner)
    (hapart : source.overlaps owner = false) (rest : List Segment) :
    ¬ Relation.ReflTransGen (ArcStep layers) (source.append rest) (owner.append rest) := by
  intro hreach
  -- The last step would lead below the owner, and so would come from an arc to a prim nested
  -- with it.
  rcases Relation.ReflTransGen.cases_tail hreach with hsame | ⟨before, -, hstep⟩
  · exact PrimPath.append_ne_append hapart rest rest hsame.symm
  · obtain ⟨arc, harc, others, -, hsame⟩ := hstep.exists_append
    obtain ⟨-, -, spec, hspec, htarget⟩ := exists_of_mem_arcs_from harc
    obtain ⟨layer, hlayer, site, -, hauthored⟩ := mem_specs_on.mp hspec
    have harcApart := huntargeted layer hlayer (site, spec)
      (SortedMap.get?_eq_some_iff.mp hauthored) arc.source htarget
    exact PrimPath.append_ne_append harcApart others rest hsame.symm

/-- A prim below the only one that declares an arc and makes choices has its own specs, those in the
variants that are chosen, and, moved into its names, the opinions on the place that the arc leads
to. -/
theorem gather_of_single_target {owner source : PrimPath} {rest : List Segment}
    (hpos : 0 < owner.depth)
    (hchoices : ∀ above ∈ (owner.append rest).ancestry, above ≠ owner →
      choicesAt layers above = [])
    (hothers : ∀ other ∈ (owner.append rest).ancestry, other ≠ owner →
      ∀ spec ∈ specsOn layers other, spec.arcTargets = [])
    (htargets : references (specsOn layers owner) ++ specialized (specsOn layers owner) = [source])
    (hapart : source.overlaps owner = false) (huntargeted : Untargeted layers owner)
    (hlength : ∀ chain, ArcChain layers (source.append rest :: chain) →
      chain.length + 1 < maxArcDepth) :
    gather layers (owner.append rest) =
      atSite layers .identity (owner.append rest) ++
        ((choicesAt layers owner).flatMap fun choice =>
          atSite layers .identity ((owner.append rest).choose owner.depth choice)) ++
        (gather layers (source.append rest)).map fun opinion =>
          opinion.followedBy source owner := by
  have harcs := arcs_from_of_single_target hpos hothers htargets hapart
  have hback := not_reaches_owner huntargeted hapart rest
  have hdirect : direct layers .identity (owner.append rest) =
      atSite layers .identity (owner.append rest) ++
        (choicesAt layers owner).flatMap fun choice =>
          atSite layers .identity ((owner.append rest).choose owner.depth choice) := by
    show (localSites layers (owner.append rest)).flatMap (atSite layers .identity) = _
    rw [local_sites_of_single_chooser hpos hchoices, List.flatMap_cons, List.flatMap_map]
  rw [gather_of_single_arc harcs hback hlength, hdirect]

end Opinion

end LayeredShading
