import PathPolicy.Forwarding.State
import PathPolicy.Policy.Model

/-! Next hops of static routes. Of the routes to the loopback networks of the destination, those of
the least distance are in use. -/

namespace PathPolicy.Static

def networks (t : Topology) (destination : RouterId) : List Address :=
  match t.router? destination with
  | some r => r.loopbacks.map (·.network)
  | none => []

def hopsOf (t : Topology) (networks : List Address) (p : NodePolicy) : List RouterId :=
  let routes := p.staticRoutes.filter fun r => networks.contains r.network
  match (routes.map (·.distance)).min? with
  | none => []
  | some best =>
    (t.sortedByName ((routes.filter (·.distance = best)).map (·.nextHop))).eraseReps

def forwarding (t : Topology) (m : PolicyModel) (destination : RouterId) : ForwardingState :=
  let networks := networks t destination
  .ofHops destination
    ((m.nodes.entries.filter fun e => e.1 ≠ destination).map fun e =>
      (e.1, hopsOf t networks e.2))

end PathPolicy.Static
