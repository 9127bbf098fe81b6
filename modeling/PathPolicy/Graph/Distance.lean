/-! Shortest distances to one node over arcs with costs. -/

namespace PathPolicy

/-- An arc from the node that lists it. -/
structure Arc where
  target : Nat
  cost : Nat
  deriving DecidableEq, Repr

abbrev Distances := Array (Option Nat)

namespace Distances

def get (d : Distances) (a : Nat) : Option Nat := d[a]?.join

def closer : Option Nat → Option Nat → Option Nat
  | none, y => y
  | x, none => x
  | some x, some y => some (min x y)

def through (d : Distances) (arc : Arc) : Option Nat := (d.get arc.target).map (arc.cost + ·)

def relax (arcs : Array (List Arc)) (d : Distances) : Distances :=
  arcs.mapIdx fun a out => out.foldl (fun best arc => closer best (d.through arc)) (d.get a)

/-- Repeats a step until nothing changes, at most `n` times. -/
def stabilize (step : Distances → Distances) : Nat → Distances → Distances
  | 0, d => d
  | n + 1, d =>
    let next := step d
    if next = d then d else stabilize step n next

def start (size target : Nat) : Distances :=
  ((List.range size).map fun a => if a = target then some 0 else none).toArray

/-- The least cost of a walk from each node to the target. A shortest walk visits no node twice,
so as many steps as there are nodes suffice. -/
def shortest (arcs : Array (List Arc)) (target : Nat) : Distances :=
  stabilize (relax arcs) arcs.size (start arcs.size target)

end Distances

end PathPolicy
