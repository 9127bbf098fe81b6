import PathPolicy.OrderedMap
import PathPolicy.Requirement

/-! The accepted requirements for one topology, grouped by protocol and destination. -/

namespace PathPolicy

structure GroupKey where
  protocol : Protocol
  destination : String
  deriving DecidableEq, Repr

namespace GroupKey

def text (k : GroupKey) : String :=
  let protocol := k.protocol.text
  let destination := k.destination
  s!"({protocol}, {destination})"

instance : Ord GroupKey := ⟨compareLex (compareOn protocol) (compareOn destination)⟩

instance : Std.TransOrd GroupKey :=
  inferInstanceAs (Std.TransCmp (compareLex (compareOn protocol) (compareOn destination)))

instance : Std.LawfulEqOrd GroupKey where
  eq_of_compare {a b} h := by
    obtain ⟨h₁, h₂⟩ := compareLex_eq_eq.mp h
    cases a; cases b
    exact congr (congrArg mk (Std.LawfulEqOrd.eq_of_compare h₁)) (Std.LawfulEqOrd.eq_of_compare h₂)

end GroupKey

inductive RequirementError
  | unknownDestination (requirement : RequirementRef)
  | noLoopback (requirement : RequirementRef)
  | noMembers (requirement : RequirementRef)
  | protocolMismatch (requirement : RequirementRef) (member : Nat) (found : Protocol)
  | destinationMismatch (requirement : RequirementRef) (member : Nat) (found : String)
  | emptyPath (requirement : RequirementRef) (member : Nat)
  deriving DecidableEq, Repr

namespace RequirementError

def requirement : RequirementError → RequirementRef
  | unknownDestination r | noLoopback r | noMembers r => r
  | protocolMismatch r _ _ | destinationMismatch r _ _ | emptyPath r _ => r

def detail : RequirementError → String
  | unknownDestination r =>
    let name := r.destination
    s!"unknown destination {name}"
  | noLoopback _ => "destination has no loopback address"
  | noMembers _ => "no member paths"
  | protocolMismatch _ member found =>
    let name := found.text
    s!"member {member} uses protocol {name}"
  | destinationMismatch _ member found => s!"member {member} has destination {found}"
  | emptyPath _ member => s!"member {member} has an empty path"

def message (e : RequirementError) : String :=
  let reference := e.requirement.text
  let reason := e.detail
  s!"Malformed requirement {reference}: {reason}"

end RequirementError

namespace Requirement

def key (r : Requirement) : GroupKey := ⟨r.protocol, r.destination⟩

def memberError? (r : Requirement) (reference : RequirementRef) (member : PathReq) (i : Nat) :
    Option RequirementError :=
  if member.protocol ≠ r.protocol then some (.protocolMismatch reference i member.protocol)
  else if member.destination ≠ r.destination then
    some (.destinationMismatch reference i member.destination)
  else if member.path.isEmpty then some (.emptyPath reference i)
  else none

end Requirement

structure Store where
  nodes : List String
  nodesWithLoopback : List String
  requirements : List Requirement
  groups : OrderedMap GroupKey (List Nat)

namespace Store

/-- The empty store for requirements on a topology. -/
def ofTopology (t : Topology) : Store where
  nodes := t.routers.map (·.name)
  nodesWithLoopback := (t.routers.filter (!·.loopbacks.isEmpty)).map (·.name)
  requirements := []
  groups := .empty

def size (s : Store) : Nat := s.requirements.length

def get? (s : Store) (index : Nat) : Option Requirement := s.requirements[index]?

/-- The first reason not to accept a requirement. -/
def error? (s : Store) (r : Requirement) : Option RequirementError :=
  let reference := r.reference s.size
  if !s.nodes.contains r.destination then some (.unknownDestination reference)
  else if r.protocol ≠ .ospf && !s.nodesWithLoopback.contains r.destination then
    some (.noLoopback reference)
  else if r.members.isEmpty then some (.noMembers reference)
  else r.members.zipIdx.findSome? fun m => r.memberError? reference m.1 m.2

/-- The accepted requirement gets the index `s.size`. -/
def add (s : Store) (r : Requirement) : Except RequirementError Store :=
  match s.error? r with
  | some e => .error e
  | none => .ok { s with
      requirements := s.requirements ++ [r]
      groups := s.groups.update r.key fun indices => indices.getD [] ++ [s.size] }

/-- Adds requirements up to the first one that is not accepted. -/
def addAll (s : Store) : List Requirement → Store × Option RequirementError
  | [] => (s, none)
  | r :: rest =>
    match s.add r with
    | .ok s => s.addAll rest
    | .error e => (s, some e)

def keys (s : Store) : List GroupKey := s.groups.keys

/-- The requirements of a group with their indices. -/
def group (s : Store) (key : GroupKey) : List (Nat × Requirement) :=
  ((s.groups.get? key).getD []).filterMap fun i => (s.get? i).map (i, ·)

end Store

end PathPolicy
