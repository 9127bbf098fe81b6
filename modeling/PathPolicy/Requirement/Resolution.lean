import PathPolicy.Requirement.Store

/-! Finding the paths of requirements in a topology. A path has to be a simple walk over links that
ends at its destination, and a BGP path has to consist of BGP speakers. -/

namespace PathPolicy

inductive PathError
  | unknownNode (requirement : RequirementRef) (node : String)
  | destinationMismatch (requirement : RequirementRef) (expected found : String)
  | cyclicPath (requirement : RequirementRef) (node : String)
  /-- `index` is the place of the first node of the hop in the path as written. -/
  | discontinuousPath (requirement : RequirementRef) (index : Nat) (first second : String)
  | notBgpSpeaker (requirement : RequirementRef) (node : String)
  deriving DecidableEq, Repr

namespace PathError

def requirement : PathError → RequirementRef
  | unknownNode r _ | destinationMismatch r _ _ | cyclicPath r _ | discontinuousPath r _ _ _
  | notBgpSpeaker r _ => r

def detail : PathError → String
  | unknownNode _ node => s!"unknown node {node} in path"
  | destinationMismatch _ expected found => s!"path ends at {found} instead of {expected}"
  | cyclicPath _ node => s!"path visits {node} twice"
  | discontinuousPath _ index first second =>
    s!"discontinuous path at hop {index} ({first} -> {second})"
  | notBgpSpeaker _ node => s!"node {node} does not speak BGP"

def message (e : PathError) : String :=
  let reference := e.requirement.text
  let reason := e.detail
  s!"{reference}: {reason}"

end PathError

/-- A router on a path, with its place in the path as written. -/
structure Visit where
  router : RouterId
  place : Nat
  deriving DecidableEq, Repr

namespace Visit

/-- Joins visits of one router that follow each other; the last place counts. -/
def collapse : List Visit → List Visit
  | [] => []
  | v :: rest =>
    match rest with
    | [] => [v]
    | w :: _ => if v.router = w.router then collapse rest else v :: collapse rest

/-- The first hop between two routers without a link. -/
def brokenHop? (t : Topology) : List Visit → Option (Visit × Visit)
  | v :: w :: rest =>
    if t.adjacent v.router w.router then brokenHop? t (w :: rest) else some (v, w)
  | _ => none

end Visit

/-- The first element that is equal to an earlier one. -/
def firstRepeated? {α : Type} [DecidableEq α] (seen : List α) : List α → Option α
  | [] => none
  | a :: rest => if a ∈ seen then some a else firstRepeated? (a :: seen) rest

structure Resolver where
  topology : Topology
  /-- Visits of one router that follow each other count as one. -/
  allowSelfPaths : Bool

namespace Resolver

def router (v : Resolver) (reference : RequirementRef) (name : String) :
    Except PathError RouterId :=
  match v.topology.routerId? name with
  | some r => .ok r
  | none => .error (.unknownNode reference name)

def visits (v : Resolver) (reference : RequirementRef) (path : List String) :
    Except PathError (List Visit) := do
  let routers ← path.mapM (v.router reference)
  let visits := routers.zipIdx.map fun r => Visit.mk r.1 r.2
  return if v.allowSelfPaths then Visit.collapse visits else visits

def path (v : Resolver) (reference : RequirementRef) (r : PathReq) :
    Except PathError (List RouterId) := do
  let t := v.topology
  let visits ← v.visits reference r.path
  let routers := visits.map (·.router)
  if r.path.getLast? ≠ some r.destination then
    throw (.destinationMismatch reference r.destination (r.path.getLast?.getD ""))
  if let some repeated := firstRepeated? [] routers then
    throw (.cyclicPath reference (t.name repeated))
  if let some (a, b) := Visit.brokenHop? t visits then
    throw (.discontinuousPath reference a.place (t.name a.router) (t.name b.router))
  if r.protocol = .bgp then
    if let some silent := routers.find? fun a => (t.asn? a).isNone then
      throw (.notBgpSpeaker reference (t.name silent))
  return routers

def requirement (v : Resolver) (index : Nat) (r : Requirement) :
    Except PathError ResolvedRequirement := do
  let reference := r.reference index
  let paths ← r.members.mapM (v.path reference)
  return ⟨reference, r.exact, paths⟩

/-- There is no group for a destination outside of the topology. -/
def group (v : Resolver) (s : Store) (key : GroupKey) :
    Except PathError (Option RequirementGroup) := do
  match v.topology.routerId? key.destination with
  | none => return none
  | some destination =>
    let requirements ← (s.group key).mapM fun r => v.requirement r.1 r.2
    return some ⟨key.protocol, destination, requirements⟩

def groups (v : Resolver) (s : Store) : Except PathError (List RequirementGroup) := do
  let groups ← s.keys.mapM (v.group s)
  return groups.filterMap id

end Resolver

end PathPolicy
