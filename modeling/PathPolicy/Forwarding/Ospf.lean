import PathPolicy.Forwarding.State
import PathPolicy.Graph.Distance
import PathPolicy.Policy.Model
import PathPolicy.Synthesis.Intent

/-! OSPF next hops. Traffic takes shortest paths over the costs of the outgoing interfaces. -/

namespace PathPolicy.Ospf

def cost (m : PolicyModel) (a b : RouterId) : Nat :=
  ((m.policy a).ospfCost? b).getD defaultOspfCost

def arcsOf (t : Topology) (m : PolicyModel) (a : RouterId) : List Arc :=
  (t.neighbors a).map fun b => ⟨b, cost m a b⟩

def arcs (t : Topology) (m : PolicyModel) : Array (List Arc) :=
  ((List.range t.size).map (arcsOf t m)).toArray

def maxPaths (m : PolicyModel) (a : RouterId) : Nat := ((m.policy a).maxPaths? .ospf).getD 1

/-- The neighbors on shortest paths, by their names. -/
def hopsOf (m : PolicyModel) (arcs : Array (List Arc)) (d : Distances) (a : RouterId) :
    List RouterId :=
  match d.get a with
  | none => []
  | some length =>
    (((arcs[a]?.getD []).filter fun arc => d.through arc = some length).map (·.target)).take
      (maxPaths m a)

def forwarding (t : Topology) (m : PolicyModel) (destination : RouterId) : ForwardingState :=
  let arcs := arcs t m
  let d := Distances.shortest arcs destination
  .ofHops destination
    (((List.range t.size).filter (· ≠ destination)).map fun a => (a, hopsOf m arcs d a))

end PathPolicy.Ospf
