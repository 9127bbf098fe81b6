import PathPolicy.Forwarding.State
import PathPolicy.Policy.Model

/-! BGP next hops. Every two linked routers with AS numbers have a session. The destination
announces the network of its first loopback, if its policy says so. In each round all routers
choose at once among the routes that their neighbors chose in the round before, until nothing
changes. -/

namespace PathPolicy.Bgp

/-- A session of a router, with the route maps that its incoming routes pass. -/
structure Peer where
  router : RouterId
  exported : List Clause
  imported : List Clause
  deriving DecidableEq, Repr

/-- A router that chooses routes. -/
structure Speaker where
  router : RouterId
  peers : List Peer
  maxPaths : Nat
  deriving DecidableEq, Repr

/-- The chosen routes of each router, the best one first. -/
abbrev Rib := Array (List Route)

def Rib.best? (rib : Rib) (r : RouterId) : Option Route := (rib[r]?.getD []).head?

def isSpeaker (t : Topology) (r : RouterId) : Bool := (t.asn? r).isSome

def speakers (t : Topology) : List RouterId := t.routersByName.filter (isSpeaker t)

def peer (m : PolicyModel) (a b : RouterId) : Peer where
  router := b
  exported := (m.policy b).routeMap a .outgoing
  imported := (m.policy a).routeMap b .incoming

def speaker (t : Topology) (m : PolicyModel) (a : RouterId) : Speaker where
  router := a
  peers := ((t.neighbors a).filter (isSpeaker t)).map (peer m a)
  maxPaths := ((m.policy a).maxPaths? .bgp).getD 1

/-- The route that `a` learns over a session. Routes that passed `a` before are dropped. -/
def learn? (rib : Rib) (a : RouterId) (p : Peer) : Option Route := do
  let best ← rib.best? p.router
  let path := p.router :: best.path
  if a ∈ path then none
  else
    let sent : Route := ⟨best.network, path, best.communities, Route.defaultLocalPref, p.router⟩
    RouteMap.apply p.imported (← RouteMap.apply p.exported sent)

/-- The higher local preference wins, then the shorter path, then the name of the sender. -/
def compareRoutes (t : Topology) : Route → Route → Ordering :=
  compareLex (fun r s => compareOn Route.localPref s r) <|
  compareLex (compareOn fun r => r.path.length) (compareOn fun r => t.name r.sender)

/-- The best route, and the others of its local preference. -/
def choose (t : Topology) (maxPaths : Nat) (candidates : List Route) : List Route :=
  match sortBy (compareRoutes t) candidates with
  | [] => []
  | best :: rest => ((best :: rest).filter (·.localPref = best.localPref)).take maxPaths

def Speaker.choice (t : Topology) (rib : Rib) (s : Speaker) : List Route :=
  choose t s.maxPaths (s.peers.filterMap (learn? rib s.router))

/-- The routers that choose routes, by their numbers. -/
abbrev Choosers := Array (Option Speaker)

def choosers (t : Topology) (m : PolicyModel) (destination : RouterId) : Choosers :=
  ((List.range t.size).map fun a =>
    if isSpeaker t a && a ≠ destination then some (speaker t m a) else none).toArray

def round (t : Topology) (choosers : Choosers) (rib : Rib) : Rib :=
  choosers.mapIdx fun a s =>
    match s with
    | some s => s.choice t rib
    | none => rib[a]?.getD []

def announced (destination : RouterId) (network : Address) : Route :=
  ⟨network, [], .empty, Route.defaultLocalPref, destination⟩

def start (t : Topology) (destination : RouterId) (network : Address) : Rib :=
  ((List.range t.size).map fun a =>
    if a = destination then [announced destination network] else []).toArray

/-- The state that a round leaves as it is, if there is one within so many rounds. -/
def converge? (step : Rib → Rib) : Nat → Rib → Option Rib
  | 0, _ => none
  | n + 1, rib =>
    let next := step rib
    if next = rib then some next else converge? step n next

def maxRounds (t : Topology) : Nat := 2 * (speakers t).length + 2

/-- The network that the destination announces. -/
def announcement? (t : Topology) (m : PolicyModel) (destination : RouterId) : Option Address := do
  let router ← t.router? destination
  let loopback ← router.loopbacks.head?
  if (m.policy destination).announces loopback.network then some loopback.network else none

def hops (destination : RouterId) (rib : Rib) : List (RouterId × List RouterId) :=
  (rib.toList.zipIdx.filter fun r => r.2 ≠ destination && !r.1.isEmpty).map fun r =>
    (r.2, r.1.map (·.sender))

def forwarding (t : Topology) (m : PolicyModel) (destination : RouterId) :
    Except ForwardingError ForwardingState :=
  match announcement? t m destination with
  | none => .ok (.ofHops destination [])
  | some network =>
    let step := round t (choosers t m destination)
    match converge? step (maxRounds t) (start t destination network) with
    | some rib => .ok (.ofHops destination (hops destination rib))
    | none => .error .noConvergence

end PathPolicy.Bgp
