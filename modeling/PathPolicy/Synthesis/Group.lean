import PathPolicy.Graph.SimplePath
import PathPolicy.Synthesis.Lowering

/-! Synthesis of one group of requirements. The intents of its requirements are put together from
the strictest kind to the least strict one. Then every path that the permitted next hops admit has
to be a member path. What is left is lowered to one bundle per router. -/

namespace PathPolicy

inductive SynthesisError
  | underconstrainedNeighbor (protocol : Protocol) (destination node neighbor : String)
  | missingLoopback (protocol : Protocol) (destination : String)
  deriving DecidableEq, Repr

namespace SynthesisError

def message : SynthesisError → String
  | underconstrainedNeighbor protocol destination node neighbor =>
    let name := protocol.text
    s!"No policy decision for ({name}, {destination}) at {node} toward {neighbor}"
  | missingLoopback protocol destination =>
    let name := protocol.text
    s!"No loopback address at {destination}, required by the {name} requirements"

end SynthesisError

structure GroupPolicy where
  protocol : Protocol
  destination : RouterId
  /-- BGP groups only. -/
  community : Option Community
  /-- The decisions of all routers without conflict. -/
  decisions : OrderedMap PolicyKey Decision
  /-- At most one bundle per router, in the order of the routers. -/
  bundles : List Bundle
  conflicts : List Conflict
  deriving DecidableEq

/-- The state of a group while its requirements are put together. -/
structure Commitments where
  intents : OrderedMap PolicyKey Intent
  maxPaths : OrderedMap RouterId (Nat × RequirementRef)
  conflicted : List RouterId
  conflicts : List Conflict

namespace Intent

/-- Why a new intent cannot be combined with the one that is there. -/
def clash? (existing new : Intent) : Option ConflictReason :=
  match existing.decision, new.decision with
  | .deny, .deny => none
  | .permit _, .deny => some .permitAndDeny
  | .deny, .permit _ => some .permitAndDeny
  | .permit m, .permit n =>
    if m = n || new.defers then none else some (.valueMismatch m n)

end Intent

namespace Commitments

def empty : Commitments := ⟨.empty, .empty, [], []⟩

def isConflicted (s : Commitments) (r : RouterId) : Bool := s.conflicted.contains r

def addConflict (t : Topology) (node neighbor : RouterId) (requirement : RequirementRef)
    (other : Option RequirementRef) (reason : ConflictReason) (s : Commitments) : Commitments :=
  { s with conflicts :=
      s.conflicts ++ [⟨t.name node, t.name neighbor, requirement, other, reason⟩] }

def exclude (rs : List RouterId) (s : Commitments) : Commitments :=
  { s with conflicted := s.conflicted ++ rs }

/-- The first intent for a neighbor stays. -/
def addIntent (t : Topology) (s : Commitments) (i : Intent) : Commitments :=
  match s.intents.get? i.key with
  | none => { s with intents := s.intents.insert i.key i }
  | some existing =>
    match existing.clash? i with
    | none => s
    | some reason =>
      (s.addConflict t i.key.router i.key.neighbor i.origin (some existing.origin) reason).exclude
        [i.key.router]

/-- The greatest number of paths counts, and of equal ones the first. -/
def addMaxPaths (origin : RequirementRef) (s : Commitments) (m : RouterId × Nat) : Commitments :=
  { s with maxPaths := s.maxPaths.update m.1 fun
      | some (k, first) => if k < m.2 then (m.2, origin) else (k, first)
      | none => (m.2, origin) }

def addRequirement (t : Topology) (g : RequirementGroup) (s : Commitments)
    (req : ResolvedRequirement) : Commitments :=
  match req.intents t g with
  | .error (node, neighbor) =>
    (s.addConflict t node neighbor req.reference none .forwardingLoop).exclude
      (req.paths.flatten.filter (· ≠ g.destination))
  | .ok r => r.maxPaths.foldl (addMaxPaths req.reference) (r.intents.foldl (addIntent t) s)

/-- The permitted neighbors of all routers without conflict. -/
def permittedHops (s : Commitments) : OrderedMap RouterId (List RouterId) :=
  s.intents.entries.foldl
    (fun m (key, i) =>
      match i.decision with
      | .permit _ =>
        if s.isConflicted key.router then m
        else m.update key.router fun hops => hops.getD [] ++ [key.neighbor]
      | .deny => m)
    .empty

/-- The simple paths from the sources to the destination over permitted next hops. Higher numbers
come first. -/
def admittedPaths (s : Commitments) (sources : List RouterId) (destination : RouterId) :
    List (List RouterId) :=
  let hops := s.permittedHops
  let next := fun a => ((hops.get? a).getD []).reverse
  let nodes := (sources ++ hops.values.flatten).eraseDups
  sources.reverse.flatMap fun a => simplePaths next destination (nodes.erase a) a

end Commitments

/-- The first place at which a path leaves every member path. -/
def leavesAt? (members : List (List RouterId)) (path : List RouterId) : Option Nat :=
  (List.range' 1 (path.length - 1)).find? fun i =>
    !members.any fun m => (path.take (i + 1)).isPrefixOf m

/-- A hop by which admitted paths leave the member paths is reported once. -/
structure SpliceCheck where
  commitments : Commitments
  spliced : List PolicyKey

namespace SpliceCheck

/-- The requirement that permits the hop before, if it is another one. -/
def previousOrigin (s : Commitments) (direction : Direction) (path : List RouterId) (i : Nat)
    (origin : RequirementRef) : Option RequirementRef :=
  match i with
  | i + 2 => do
    let a ← path[i]?
    let b ← path[i + 1]?
    let previous ← s.intents.get? ⟨a, b, direction⟩
    if previous.origin = origin then none else some previous.origin
  | _ => none

def checkHop (t : Topology) (direction : Direction) (c : SpliceCheck) (path : List RouterId)
    (i : Nat) (a b : RouterId) : SpliceCheck :=
  let key : PolicyKey := ⟨a, b, direction⟩
  match c.commitments.intents.get? key with
  | none => c
  | some intent =>
    if key ∈ c.spliced then c
    else
      let other := previousOrigin c.commitments direction path i intent.origin
      { commitments := c.commitments.addConflict t a b intent.origin other
          (.splicedPath (t.names path))
        spliced := key :: c.spliced }

def checkPath (t : Topology) (direction : Direction) (members : List (List RouterId))
    (c : SpliceCheck) (path : List RouterId) : SpliceCheck :=
  if path ∈ members then c
  else match leavesAt? members path with
    | none => c
    | some i =>
      match path[i - 1]?, path[i]? with
      | some a, some b => c.checkHop t direction path i a b
      | _, _ => c

def result (c : SpliceCheck) : Commitments := c.commitments.exclude (c.spliced.map (·.router))

end SpliceCheck

namespace RequirementGroup

/-- Stricter kinds come first, and within a kind earlier requirements. -/
def strictestFirst (g : RequirementGroup) : List ResolvedRequirement :=
  sortBy (compareLex (compareOn fun r => r.kind.rank) (compareOn fun r => r.reference.index))
    g.requirements

def routers (g : RequirementGroup) : List RouterId := (OrderedSet.ofList g.paths.flatten).toList

/-- The loopback networks of the destination. -/
def networks (g : RequirementGroup) (t : Topology) : List Address :=
  match t.router? g.destination with
  | some r => (r.loopbacks.map (·.network)).eraseDups
  | none => []

def direction (g : RequirementGroup) : Direction := g.protocol.keyDirection

def combine (g : RequirementGroup) (t : Topology) : Commitments :=
  g.strictestFirst.foldl (Commitments.addRequirement t g) .empty

/-- A router on a path, and a neighbor of it that it has not decided on. -/
def undecided? (g : RequirementGroup) (t : Topology) (s : Commitments) :
    Option (RouterId × RouterId) :=
  (g.routers.filter fun a => a ≠ g.destination && !s.isConflicted a).findSome? fun a =>
    ((t.neighbors a).find? fun b => !s.intents.contains ⟨a, b, g.direction⟩).map (a, ·)

def sources (g : RequirementGroup) (s : Commitments) : List RouterId :=
  (OrderedSet.ofList ((g.paths.filterMap (·.head?)).filter fun a =>
    a ≠ g.destination && !s.isConflicted a)).toList

/-- Routers by which admitted paths leave the member paths have a conflict. -/
def checkSplices (g : RequirementGroup) (t : Topology) (s : Commitments) : Commitments :=
  ((s.admittedPaths (g.sources s) g.destination).foldl
    (SpliceCheck.checkPath t g.direction g.paths) ⟨s, []⟩).result

end RequirementGroup

abbrev Bundles := OrderedMap RouterId (List PolicyEntry)

namespace Bundles

def add (m : Bundles) (r : RouterId) (entries : List PolicyEntry) : Bundles :=
  m.update r fun old => old.getD [] ++ entries

def toList (m : Bundles) : List Bundle := m.entries.map fun (r, entries) => ⟨r, entries⟩

end Bundles

namespace RequirementGroup

/-- The commitments of all routers without conflict. -/
def settled (s : Commitments) : OrderedMap PolicyKey Intent :=
  s.intents.filter fun key _ => !s.isConflicted key.router

def decisionBundles (mark : GroupMark) (s : Commitments) : Bundles :=
  (settled s).entries.foldl
    (fun m (key, i) => m.add key.router
      ((mark.lower key.neighbor i.decision).map fun p => ⟨key, p, i.origin⟩))
    OrderedMap.empty

/-- A BGP destination announces its networks. -/
def withAnnouncement (g : RequirementGroup) (networks : List Address) (m : Bundles) : Bundles :=
  match g.protocol, g.requirements.head? with
  | .bgp, some first => m.add g.destination
      (networks.map fun network => ⟨.ofRouter g.destination, .network network, first.reference⟩)
  | _, _ => m

def withMaxPaths (g : RequirementGroup) (s : Commitments) (m : Bundles) : Bundles :=
  (s.maxPaths.filter fun r _ => !s.isConflicted r).entries.foldl
    (fun m (r, n, origin) => m.add r [⟨.ofRouter r, .maxPaths g.protocol n, origin⟩]) m

def bundles (g : RequirementGroup) (mark : GroupMark) (s : Commitments) : List Bundle :=
  (g.withMaxPaths s (g.withAnnouncement mark.networks (decisionBundles mark s))).toList

/-- Without a community the first one of the default AS is taken. -/
def synthesize (g : RequirementGroup) (t : Topology) (community : Option Community) :
    Except SynthesisError GroupPolicy := do
  let mark : GroupMark := {
    protocol := g.protocol
    destination := g.destination
    community := community.getD ⟨defaultCommunityAsn, 0⟩
    networks := g.networks t }
  if mark.networks.isEmpty && g.protocol ≠ .ospf then
    throw (.missingLoopback g.protocol (t.name g.destination))
  let combined := g.combine t
  if let some (a, b) := g.undecided? t combined then
    throw (.underconstrainedNeighbor g.protocol (t.name g.destination) (t.name a) (t.name b))
  let s := g.checkSplices t combined
  return {
    protocol := g.protocol
    destination := g.destination
    community := if g.protocol = .bgp then some mark.community else none
    decisions := (settled s).mapValues fun _ i => i.decision
    bundles := g.bundles mark s
    conflicts := s.conflicts }

end RequirementGroup

end PathPolicy
