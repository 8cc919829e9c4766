import LayeredShading.Reachability
import Mathlib.Data.List.Perm.Subperm
import Mathlib.Data.List.TakeWhile
import Mathlib.Logic.Relation

/-!
# The law of the search

A search with as many visits as there are points finds exactly what arcs lead to from the starting
points (`mem_reachable_iff`), and has ended by then (`reachable_stable`). Every visit keeps that all
arcs from points that have been seen lead to points that have been seen or are pending
(`Searching.visit`); when no visit is left all points have been seen.
-/

namespace LayeredShading

variable {α : Type} [DecidableEq α]

/-- An arc leads from one point to another. -/
def ArcTo (next : α → List α) (point other : α) : Prop := other ∈ next point

/-- All that arcs lead to from the points seen has been seen or is pending. -/
def Covers (next : α → List α) (seen pending : List α) : Prop :=
  ∀ point ∈ seen, ∀ other ∈ next point, other ∈ seen ∨ other ∈ pending

variable {next : α → List α} {visits : Nat} {seen pending : List α}

/-- Of the pending points only such are skipped that have been seen. -/
theorem seen_or_mem_drop_while {point : α} (h : point ∈ pending) :
    point ∈ seen ∨ point ∈ pending.dropWhile fun point => decide (point ∈ seen) := by
  induction pending with
  | nil => cases h
  | cons head rest ih =>
      by_cases hhead : head ∈ seen
      · rw [List.dropWhile_cons_of_pos (by simpa using hhead)]
        rcases List.mem_cons.mp h with rfl | hrest
        · exact .inl hhead
        · exact ih hrest
      · rw [List.dropWhile_cons_of_neg (by simpa using hhead)]
        exact .inr h

theorem Covers.drop_while (h : Covers next seen pending) :
    Covers next seen (pending.dropWhile fun point => decide (point ∈ seen)) := by
  intro point hpoint other hother
  rcases h point hpoint other hother with hseen | hpending
  · exact .inl hseen
  · exact seen_or_mem_drop_while hpending

/-- What is seen is kept, and what is pending is visited if there are visits enough. -/
theorem subset_reachable_within : seen ⊆ reachableWithin next visits seen pending := by
  induction visits generalizing seen pending with
  | zero => exact List.Subset.refl _
  | succ visits ih =>
      rw [reachableWithin]
      split
      next => exact List.Subset.refl _
      next => exact List.Subset.trans (List.subset_append_left _ _) ih

/-- Everything that is found was seen before or is led to from a pending point. -/
theorem exists_of_mem_reachable_within {found : α}
    (h : found ∈ reachableWithin next visits seen pending) :
    found ∈ seen ∨ ∃ point ∈ pending, Relation.ReflTransGen (ArcTo next) point found := by
  induction visits generalizing seen pending with
  | zero => exact .inl h
  | succ visits ih =>
      rw [reachableWithin] at h
      split at h
      next => exact .inl h
      next point rest hrest =>
        have hsubset : ∀ other ∈ point :: rest, other ∈ pending := by
          intro other hother
          exact (List.dropWhile_sublist _).subset (hrest ▸ hother)
        have hpoint := hsubset point List.mem_cons_self
        rcases ih h with hseen | ⟨other, hother, hleads⟩
        · rcases List.mem_append.mp hseen with hseen | hnew
          · exact .inl hseen
          · obtain rfl := List.mem_singleton.mp hnew
            exact .inr ⟨found, hpoint, .refl⟩
        · rcases List.mem_append.mp hother with hnext | hother
          · exact .inr ⟨point, hpoint, .head (List.mem_reverse.mp hnext) hleads⟩
          · exact .inr ⟨other, hsubset other (List.mem_cons_of_mem _ hother), hleads⟩

omit [DecidableEq α] in
/-- Visiting the first pending point makes what arcs lead to from it pending. -/
theorem Covers.visit {point : α} {rest : List α} (h : Covers next seen (point :: rest)) :
    Covers next (seen ++ [point]) ((next point).reverse ++ rest) := by
  intro first hfirst other hother
  rcases List.mem_append.mp hfirst with hfirst | hfirst
  · rcases h first hfirst other hother with hother | hother
    · exact .inl (List.mem_append_left _ hother)
    · rcases List.mem_cons.mp hother with rfl | hother
      · exact .inl (List.mem_append_right _ List.mem_cons_self)
      · exact .inr (List.mem_append_right _ hother)
  · obtain rfl := List.mem_singleton.mp hfirst
    exact .inr (List.mem_append_left _ (List.mem_reverse.mpr hother))

omit [DecidableEq α] in
/-- Distinct points of a universe that are as many as it has are all of it. -/
theorem subset_of_length_le {list points : List α} (hdistinct : list.Nodup)
    (hsubset : list ⊆ points) (hlength : points.length ≤ list.length) : points ⊆ list :=
  ((hdistinct.subperm hsubset).perm_of_length_le hlength).symm.subset

/-- The state of a search within a universe of points: no point has been seen twice, and arcs from
what has been seen are covered. -/
structure Searching (next : α → List α) (points seen pending : List α) : Prop where
  distinct : seen.Nodup
  seen_subset : seen ⊆ points
  pending_subset : pending ⊆ points
  covers : Covers next seen pending

omit [DecidableEq α] in
/-- A search starts with nothing seen. -/
theorem Searching.start {points start : List α} (hstart : start ⊆ points) :
    Searching next points [] start.reverse :=
  ⟨List.nodup_nil, List.nil_subset _, fun _ hother => hstart (List.mem_reverse.mp hother), nofun⟩

/-- A visit to the first pending point that has not been seen keeps the state of a search, if arcs
do not leave the universe. -/
theorem Searching.visit {points : List α} (h : Searching next points seen pending)
    (hpoints : ∀ point ∈ points, next point ⊆ points) {point : α} {rest : List α}
    (hrest : pending.dropWhile (fun point => decide (point ∈ seen)) = point :: rest) :
    Searching next points (seen ++ [point]) ((next point).reverse ++ rest) := by
  have hsubset : point :: rest ⊆ pending := by
    rw [← hrest]
    exact (List.dropWhile_sublist _).subset
  have hnew : point ∉ seen := by
    have hhead := List.head?_dropWhile_not (fun point => decide (point ∈ seen)) pending
    simpa [hrest] using hhead
  have hpoint : point ∈ points := h.pending_subset (hsubset List.mem_cons_self)
  refine ⟨?_, ?_, ?_, ?_⟩
  · refine List.nodup_append.mpr ⟨h.distinct, by simp, fun first hfirst other hother => ?_⟩
    obtain rfl := List.mem_singleton.mp hother
    rintro rfl
    exact hnew hfirst
  · exact List.append_subset.mpr ⟨h.seen_subset, by simpa using hpoint⟩
  · refine List.append_subset.mpr ⟨fun other hother => ?_, fun other hother => ?_⟩
    · exact hpoints point hpoint (List.mem_reverse.mp hother)
    · exact h.pending_subset (hsubset (List.mem_cons_of_mem _ hother))
  · exact Covers.visit (hrest ▸ h.covers.drop_while)

omit [DecidableEq α] in
/-- When as many points have been seen as the universe has, all of them have been seen. -/
theorem Searching.all_seen {points : List α} (h : Searching next points seen pending)
    (hlength : points.length ≤ seen.length) : points ⊆ seen :=
  subset_of_length_le h.distinct h.seen_subset hlength

/-- With visits enough for all points of the universe the search ends by itself: further visits
would find nothing more. -/
theorem Searching.stable {points : List α} (h : Searching next points seen pending)
    (hpoints : ∀ point ∈ points, next point ⊆ points)
    (hvisits : points.length ≤ visits + seen.length) (more : Nat) :
    reachableWithin next (visits + more) seen pending =
      reachableWithin next visits seen pending := by
  induction visits generalizing seen pending with
  | zero =>
      have hnone : pending.dropWhile (fun point => decide (point ∈ seen)) = [] :=
        List.dropWhile_eq_nil_iff.mpr fun point hpoint =>
          decide_eq_true (h.all_seen (by omega) (h.pending_subset hpoint))
      cases more with
      | zero => rfl
      | succ more => rw [Nat.zero_add, reachableWithin, reachableWithin, hnone]
  | succ visits ih =>
      rw [Nat.add_right_comm, reachableWithin, reachableWithin]
      split
      next => rfl
      next point rest hrest =>
        exact ih (h.visit hpoints hrest)
          (by simp only [List.length_append, List.length_singleton]; omega)

/-- With visits enough for all points of the universe, everything pending is found, and so is all
that arcs lead to from what is found. -/
theorem Searching.closed {points : List α} (h : Searching next points seen pending)
    (hpoints : ∀ point ∈ points, next point ⊆ points)
    (hvisits : points.length ≤ visits + seen.length) :
    (∀ point ∈ pending, point ∈ reachableWithin next visits seen pending) ∧
      ∀ point ∈ reachableWithin next visits seen pending, ∀ other ∈ next point,
        other ∈ reachableWithin next visits seen pending := by
  induction visits generalizing seen pending with
  | zero =>
      have hall : points ⊆ seen := h.all_seen (by omega)
      refine ⟨fun point hpoint => hall (h.pending_subset hpoint), ?_⟩
      intro point hpoint other hother
      exact hall (hpoints point (h.seen_subset hpoint) hother)
  | succ visits ih =>
      have hdropped := h.covers.drop_while
      have hdrop : ∀ point ∈ pending,
          point ∈ seen ∨ point ∈ pending.dropWhile fun point => decide (point ∈ seen) :=
        fun point hpoint => seen_or_mem_drop_while hpoint
      rw [reachableWithin]
      split
      next hnil =>
        rw [hnil] at hdropped hdrop
        refine ⟨fun point hpoint => by simpa using hdrop point hpoint, ?_⟩
        intro point hpoint other hother
        simpa using hdropped point hpoint other hother
      next point rest hrest =>
        obtain ⟨hfound, hclosed⟩ := ih (h.visit hpoints hrest)
          (by simp only [List.length_append, List.length_singleton]; omega)
        refine ⟨fun other hother => ?_, hclosed⟩
        rw [hrest] at hdrop
        rcases hdrop other hother with hother | hother
        · exact subset_reachable_within (List.mem_append_left _ hother)
        · rcases List.mem_cons.mp hother with rfl | hother
          · exact subset_reachable_within (List.mem_append_right _ List.mem_cons_self)
          · exact hfound other (List.mem_append_right _ hother)

/-- A search finds exactly the points that a relation leads to from the starting points, if the arcs
are those of the relation and it may visit as many points as there are. -/
theorem mem_reachable_iff {related : α → α → Prop}
    (hnext : ∀ point other, other ∈ next point ↔ related point other) (points : List α)
    {start : List α} {bound : Nat} {found : α} (hstart : start ⊆ points)
    (hpoints : ∀ point ∈ points, next point ⊆ points) (hbound : points.length ≤ bound) :
    found ∈ reachable next bound start ↔
      ∃ point ∈ start, Relation.ReflTransGen related point found := by
  obtain rfl : ArcTo next = related := by
    funext point other
    exact propext (hnext point other)
  constructor
  · intro hfound
    rcases exists_of_mem_reachable_within hfound with hseen | ⟨point, hpoint, hleads⟩
    · cases hseen
    · exact ⟨point, List.mem_reverse.mp hpoint, hleads⟩
  · rintro ⟨point, hpoint, hleads⟩
    have hvisits : points.length ≤ bound + ([] : List α).length := hbound
    obtain ⟨hpending, hclosed⟩ := (Searching.start hstart).closed hpoints hvisits
    induction hleads with
    | refl => exact hpending point (List.mem_reverse.mpr hpoint)
    | tail _ harc ih => exact hclosed _ ih _ harc

/-- A search that may visit as many points as there are ends by itself. -/
theorem reachable_stable (points : List α) {start : List α} {bound : Nat} (hstart : start ⊆ points)
    (hpoints : ∀ point ∈ points, next point ⊆ points) (hbound : points.length ≤ bound)
    (more : Nat) : reachable next (bound + more) start = reachable next bound start :=
  (Searching.start hstart).stable hpoints hbound more

end LayeredShading
