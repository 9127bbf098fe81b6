/-! The simple paths of a graph that is given by the next nodes of each node. -/

namespace PathPolicy

/-- The paths from `a` to their first visit of `target` that pass through each of the `unused`
nodes at most once, and through no other node but `a`. -/
def simplePaths (next : Nat → List Nat) (target : Nat) (unused : List Nat) (a : Nat) :
    List (List Nat) :=
  if a = target then [[a]]
  else (next a).flatMap fun b =>
    if _h : b ∈ unused then (simplePaths next target (unused.erase b) b).map (a :: ·) else []
termination_by unused.length
decreasing_by
  have := List.length_pos_of_mem _h
  rw [List.length_erase_of_mem _h]
  omega

end PathPolicy
