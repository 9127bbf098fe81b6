import PathPolicy.Network.Numbered
import PathPolicy.Requirement

/-! Four autonomous systems in a diamond: `S` reaches `D` over `A` and over `B`. -/

namespace PathPolicy.Network.Diamond

def topology : Topology :=
  (ofLinks [("S", "A"), ("S", "B"), ("A", "D"), ("B", "D")]).toOption.getD .empty

def path (protocol : Protocol) (middle : String) : PathReq :=
  ⟨protocol, "D", ["S", middle, "D"], false⟩

/-- BGP traffic from `S` to `D` is spread over `A` and `B`. -/
def balanced : Requirement := .ecmp ⟨.bgp, "D", [path .bgp "A", path .bgp "B"], false⟩

/-- Traffic from `S` to `D` prefers `A` to `B`. -/
def ordered (protocol : Protocol) : Requirement :=
  .order ⟨protocol, "D", [path protocol "A", path protocol "B"], false⟩

end PathPolicy.Network.Diamond
