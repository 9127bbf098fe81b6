import PathPolicy.Forwarding.Bgp
import PathPolicy.Forwarding.Ospf
import PathPolicy.Forwarding.Static

/-! Comparison of the paths that traffic takes with those that requirements ask for. -/

namespace PathPolicy

namespace ForwardingState

def compute (t : Topology) (m : PolicyModel) (protocol : Protocol) (destination : RouterId) :
    Except ForwardingError ForwardingState :=
  match protocol with
  | .bgp => Bgp.forwarding t m destination
  | .ospf => .ok (Ospf.forwarding t m destination)
  | .static => .ok (Static.forwarding t m destination)

end ForwardingState

namespace ForwardingError

def pathText (t : Topology) (path : List RouterId) : String := " -> ".intercalate (t.names path)

def describe (t : Topology) : ForwardingError → String
  | loop path => "a loop " ++ pathText t path
  | blackHole path => "a black hole after " ++ pathText t path
  | noConvergence => "no path, BGP does not converge"

end ForwardingError

structure Violation where
  requirement : RequirementRef
  expected : List String
  /-- The path of the traffic, or what becomes of it instead. -/
  actual : Except String (List String)

namespace Violation

def actualText (v : Violation) : String :=
  match v.actual with
  | .ok path => " -> ".intercalate path
  | .error text => text

def message (v : Violation) : String :=
  let reference := v.requirement.text
  let expected := " -> ".intercalate v.expected
  let actual := v.actualText
  s!"{reference}: expected {expected}, but traffic takes {actual}"

end Violation

namespace ResolvedRequirement

/-- The path of a path requirement, or the most preferred one of ordered paths. -/
def mainPath? (req : ResolvedRequirement) : Option (List RouterId) :=
  match req.kind with
  | .path | .order => req.paths.head?.filter (2 ≤ ·.length)
  | .ecmp | .kConnected => none

def violation? (req : ResolvedRequirement) (t : Topology)
    (state : Except ForwardingError ForwardingState) : Option Violation := do
  let path ← req.mainPath?
  let source ← path.head?
  match state.bind fun s => s.route source with
  | .ok actual =>
    if t.names actual = t.names path then none
    else some ⟨req.reference, t.names path, .ok (t.names actual)⟩
  | .error e => some ⟨req.reference, t.names path, .error (e.describe t)⟩

end ResolvedRequirement

namespace PolicyModel

/-- All requirements whose main path the traffic does not take. -/
def violations (m : PolicyModel) (t : Topology) (groups : List RequirementGroup) :
    List Violation :=
  groups.flatMap fun g =>
    let state := ForwardingState.compute t m g.protocol g.destination
    g.requirements.filterMap fun req => req.violation? t state

end PolicyModel

end PathPolicy
