import PathPolicy.Network.Numbered
import PathPolicy.Requirement

/-! A star of four autonomous systems. `Velenj`, in the middle, has to reach `PeerVelenj` over
their link, and not over `Celje` or `Sloven`. -/

namespace PathPolicy.Network.Velenj

def routers : List Router :=
  [⟨"Celje", some 30, [loopback 1]⟩, ⟨"Velenj", some 260, [loopback 2]⟩,
    ⟨"Sloven", some 250, [loopback 3]⟩, ⟨"PeerVelenj", some 1020, [loopback 4]⟩]

def neighbors : List String := ["Celje", "Sloven", "PeerVelenj"]

def build : Except TopologyError Topology := do
  let t ← routers.foldlM Topology.addRouter .empty
  neighbors.foldlM (fun t name => t.connect "Velenj" name) t

def topology : Topology := build.toOption.getD .empty

def requirement : Requirement :=
  .order ⟨.bgp, "PeerVelenj", [⟨.bgp, "PeerVelenj", ["Velenj", "PeerVelenj"], false⟩], false⟩

end PathPolicy.Network.Velenj
