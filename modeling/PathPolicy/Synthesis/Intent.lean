import PathPolicy.Graph.Digraph
import PathPolicy.Policy.Conflict
import PathPolicy.Policy.Primitive

/-! What a single requirement asks of the routers on its paths. Each router on a path, except the
destination, permits the next hops that the requirement uses and denies all other neighbors. -/

namespace PathPolicy

/-- A permitted next hop has a local preference, an interface cost or an administrative distance,
depending on the protocol. -/
inductive Decision
  | permit (value : Nat)
  | deny
  deriving DecidableEq, Repr

structure Intent where
  key : PolicyKey
  decision : Decision
  origin : RequirementRef
  /-- Leaves the value of a permitted next hop to stricter requirements. -/
  defers : Bool
  deriving DecidableEq, Repr

/-- BGP decides on the routes that come in, the other protocols on the traffic that goes out. -/
def Protocol.keyDirection : Protocol → Direction
  | .bgp => .incoming
  | .ospf | .static => .outgoing

/-- The local preference of the least preferred next hop. -/
def leastLocalPref : Nat := 1

def defaultOspfCost : Nat := 10

/-- The cost of a denied interface. -/
def denyOspfCost : Nat := 65535

/-- The distance of the most preferred static route. -/
def leastDistance : Nat := 1

/-- For each router its next hops with their ranks. -/
abbrev HopRanks := OrderedMap RouterId (OrderedMap RouterId Nat)

namespace HopRanks

def hops (m : HopRanks) (a : RouterId) : OrderedMap RouterId Nat := (m.get? a).getD .empty

/-- A hop keeps its least rank. -/
def addHop (rank : Nat) (m : HopRanks) (hop : RouterId × RouterId) : HopRanks :=
  m.insert hop.1 ((m.hops hop.1).update hop.2 fun old => min (old.getD rank) rank)

def addPath (m : HopRanks) (rank : Nat) (path : List RouterId) : HopRanks :=
  (path.zip path.tail).foldl (addHop rank) m

/-- The rank of a hop is the least index of a member that uses it, if the members are ordered, and
zero otherwise. -/
def ofRequirement (req : ResolvedRequirement) : HopRanks :=
  req.paths.zipIdx.foldl
    (fun m p => m.addPath (if req.kind = .order then p.2 else 0) p.1) OrderedMap.empty

/-- Replaces each rank by the number of different lower ranks at the same router. -/
def dense (m : HopRanks) : HopRanks :=
  m.mapValues fun _ hops =>
    hops.mapValues fun _ rank => hops.values.eraseDups.countP (· < rank)

/-- The number of different ranks at a router, given dense ranks. -/
def levels (m : HopRanks) (a : RouterId) : Nat :=
  match (m.hops a).values.max? with
  | some rank => rank + 1
  | none => 1

/-- The hops of rank zero. -/
def preferred (m : HopRanks) (destination : RouterId) : Digraph :=
  m.entries.foldl
    (fun g (a, hops) => hops.entries.foldl
      (fun g (b, rank) => if rank = 0 then g.addEdge a b else g) g)
    (Digraph.empty.addNode destination)

end HopRanks

/-- The distance of each router to the destination over the most preferred hops, the longest way
round. A loop of such hops is reported by one of its hops. -/
def preferredHeights (ranks : HopRanks) (destination : RouterId) :
    Except (RouterId × RouterId) (List (RouterId × Nat)) :=
  let g := ranks.preferred destination
  match g.topologicalOrder with
  | .ok order => .ok (g.heights order)
  | .error a => .error (a, (g.successors a).headD a)

structure RequirementIntents where
  intents : List Intent
  maxPaths : List (RouterId × Nat)
  deriving DecidableEq, Repr

/-- The value of the permitted next hop `b` of `a`, of dense rank `rank`, in a topology of `size`
routers. -/
def permitValue (protocol : Protocol) (kind : RequirementKind) (size : Nat) (ranks : HopRanks)
    (heights : List (RouterId × Nat)) (a b : RouterId) (rank : Nat) : Nat :=
  let height := fun r => (heights.lookup r).getD 0
  match protocol, kind with
  | .bgp, .kConnected => Route.defaultLocalPref
  | .bgp, _ => leastLocalPref + (ranks.levels a - (rank + 1))
  | .ospf, .kConnected => defaultOspfCost
  -- The sum is one of 32 bits. Heights and ranks are below the number of routers, so that up to
  -- 65536 of them cannot make it overflow (`sum_lt_two_pow`). Only costs far above that of a denied
  -- interface could, and what becomes of those is not modelled.
  | .ospf, _ => max (height a + rank * size - height b) 1
  | .static, .kConnected => leastDistance
  | .static, _ => leastDistance + rank

namespace ResolvedRequirement

def heights (req : ResolvedRequirement) (ranks : HopRanks) (destination : RouterId) :
    Except (RouterId × RouterId) (List (RouterId × Nat)) :=
  if req.kind = .kConnected then .ok [] else preferredHeights ranks destination

def intentsAt (req : ResolvedRequirement) (t : Topology) (protocol : Protocol)
    (value : RouterId → RouterId → Nat → Nat) (a : RouterId) (hops : OrderedMap RouterId Nat) :
    List Intent :=
  (t.neighbors a).map fun b => {
    key := ⟨a, b, protocol.keyDirection⟩
    decision := match hops.get? b with
      | some rank => .permit (value a b rank)
      | none => .deny
    origin := req.reference
    defers := req.kind = .kConnected }

/-- Load balancing needs as many paths as there are members at the sources and wherever the
members part. -/
def maxPaths (req : ResolvedRequirement) (g : RequirementGroup) (ranks : HopRanks) :
    List (RouterId × Nat) :=
  if req.kind = .ecmp && g.protocol ≠ .static then
    let sources := req.paths.filterMap (·.head?)
    (ranks.entries.filter fun (a, hops) =>
      1 < hops.size || (a ≠ g.destination && sources.contains a)).map
        fun (a, _) => (a, req.paths.length)
  else []

/-- The intents of a requirement, or a hop of a loop of its most preferred next hops. -/
def intents (req : ResolvedRequirement) (t : Topology) (g : RequirementGroup) :
    Except (RouterId × RouterId) RequirementIntents := do
  let ranks := (HopRanks.ofRequirement req).dense
  let heights ← req.heights ranks g.destination
  let value := permitValue g.protocol req.kind t.size ranks heights
  return {
    intents := ranks.entries.flatMap fun (a, hops) => req.intentsAt t g.protocol value a hops
    maxPaths := req.maxPaths g ranks }

end ResolvedRequirement

end PathPolicy
