/-!
# Reachability

What can be reached from some starting points along arcs, in the order of a depth-first search. The
search always goes on from the last point that it still has to visit, so the last starting point
and the last arc of each point come first. A graph with `bound` points needs at most as many visits.
-/

namespace LayeredShading

variable {α : Type} [DecidableEq α]

/-- The points that are visited, in order, when those of `seen` have been, those of `pending` are
still to be visited, the first one next, and at most a number of points more are visited. -/
def reachableWithin (next : α → List α) : Nat → (seen pending : List α) → List α
  | 0, seen, _ => seen
  | visits + 1, seen, pending =>
    match pending.dropWhile fun point => decide (point ∈ seen) with
    | [] => seen
    | point :: rest =>
      reachableWithin next visits (seen ++ [point]) ((next point).reverse ++ rest)

/-- The points that are reached from the starting points along zero or more arcs. -/
def reachable (next : α → List α) (bound : Nat) (start : List α) : List α :=
  reachableWithin next bound [] start.reverse

end LayeredShading
