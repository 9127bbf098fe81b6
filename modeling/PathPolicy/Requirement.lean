import PathPolicy.Protocol
import PathPolicy.Topology

/-! Requirements on the paths of the traffic toward a destination, and their text. -/

namespace PathPolicy

/-- Kinds in the order in which the requirements of a group are applied. -/
inductive RequirementKind
  | path
  | order
  | ecmp
  | kConnected
  deriving DecidableEq, Repr

namespace RequirementKind

def keyword : RequirementKind → String
  | path => "PathReq"
  | order => "PathOrderReq"
  | ecmp => "ECMPPathsReq"
  | kConnected => "KConnectedPathsReq"

def ofKeyword? : String → Option RequirementKind
  | "PathReq" => some path
  | "PathOrderReq" => some order
  | "ECMPPathsReq" => some ecmp
  | "KConnectedPathsReq" => some kConnected
  | _ => none

def rank : RequirementKind → Nat
  | path => 0
  | order => 1
  | ecmp => 2
  | kConnected => 3

end RequirementKind

/-- Traffic follows `path`, from its source to its destination. The flag `exact` has no effect. -/
structure PathReq where
  protocol : Protocol
  destination : String
  path : List String
  exact : Bool
  deriving DecidableEq, Repr

structure PathSetReq where
  protocol : Protocol
  destination : String
  members : List PathReq
  exact : Bool
  deriving DecidableEq, Repr

inductive Requirement
  /-- Traffic takes this path. -/
  | path (r : PathReq)
  /-- The members are preferred in the order in which they are listed. -/
  | order (r : PathSetReq)
  /-- Traffic is spread over all members. -/
  | ecmp (r : PathSetReq)
  /-- Traffic takes any member, and no other path. -/
  | kConnected (r : PathSetReq)
  deriving DecidableEq, Repr

/-- Names a requirement in errors by its index in the store. -/
structure RequirementRef where
  index : Nat
  kind : RequirementKind
  protocol : Protocol
  destination : String
  deriving DecidableEq, Repr

namespace RequirementRef

def text (r : RequirementRef) : String :=
  let keyword := r.kind.keyword
  let protocol := r.protocol.text
  let destination := r.destination
  let index := r.index
  s!"{keyword}({protocol}, {destination}) #{index}"

end RequirementRef

def flagText (b : Bool) : String := if b then "True" else "False"

def callText (keyword : String) (protocol : Protocol) (destination : String)
    (items : List String) (exact : Bool) : String :=
  let name := protocol.text
  let inner := ", ".intercalate items
  let flag := flagText exact
  s!"{keyword}({name}, {destination}, [{inner}], {flag})"

def PathReq.text (r : PathReq) : String :=
  callText "PathReq" r.protocol r.destination r.path r.exact

namespace Requirement

def kind : Requirement → RequirementKind
  | path _ => .path
  | order _ => .order
  | ecmp _ => .ecmp
  | kConnected _ => .kConnected

def protocol : Requirement → Protocol
  | path r => r.protocol
  | order r | ecmp r | kConnected r => r.protocol

def destination : Requirement → String
  | path r => r.destination
  | order r | ecmp r | kConnected r => r.destination

def exact : Requirement → Bool
  | path r => r.exact
  | order r | ecmp r | kConnected r => r.exact

/-- A path requirement is its own only member. -/
def members : Requirement → List PathReq
  | path r => [r]
  | order r | ecmp r | kConnected r => r.members

def reference (r : Requirement) (index : Nat) : RequirementRef :=
  ⟨index, r.kind, r.protocol, r.destination⟩

def text : Requirement → String
  | path r => r.text
  | r => callText r.kind.keyword r.protocol r.destination (r.members.map (·.text)) r.exact

end Requirement

/-- A requirement whose paths were found in a topology. -/
structure ResolvedRequirement where
  reference : RequirementRef
  exact : Bool
  paths : List (List RouterId)
  deriving DecidableEq, Repr

namespace ResolvedRequirement

def kind (r : ResolvedRequirement) : RequirementKind := r.reference.kind

end ResolvedRequirement

/-- The resolved requirements of one protocol and destination, in the order of their addition. -/
structure RequirementGroup where
  protocol : Protocol
  destination : RouterId
  requirements : List ResolvedRequirement
  deriving DecidableEq, Repr

namespace RequirementGroup

def paths (g : RequirementGroup) : List (List RouterId) := g.requirements.flatMap (·.paths)

end RequirementGroup

end PathPolicy
