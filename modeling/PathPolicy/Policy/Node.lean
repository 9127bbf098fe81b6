import PathPolicy.Policy.Conflict
import PathPolicy.Policy.Primitive

/-! The policy of a single router. -/

namespace PathPolicy

/-- A neighbor and the direction of the routes that it exchanges. -/
structure Session where
  neighbor : RouterId
  direction : Direction
  deriving DecidableEq, Repr

namespace Session

instance : Ord Session := ⟨compareLex (compareOn neighbor) (compareOn direction)⟩

instance : Std.TransOrd Session :=
  inferInstanceAs (Std.TransCmp (compareLex (compareOn neighbor) (compareOn direction)))

instance : Std.LawfulEqOrd Session where
  eq_of_compare {a b} h := by
    obtain ⟨h₁, h₂⟩ := compareLex_eq_eq.mp h
    cases a; cases b
    obtain rfl := Std.LawfulEqOrd.eq_of_compare h₁
    obtain rfl := Std.LawfulEqOrd.eq_of_compare h₂
    rfl

end Session

/-- A place that holds at most one value. -/
inductive Slot
  | clause (session : Session) (conditions : List Condition)
  | cost (neighbor : RouterId)
  | staticRoute (nextHop : RouterId) (network : Address)
  deriving DecidableEq, Repr

structure NodePolicy where
  routeMaps : OrderedMap Session (List Clause)
  ospfCosts : OrderedMap RouterId Nat
  staticRoutes : List StaticRoute
  maxPaths : OrderedMap Protocol Nat
  networks : OrderedSet Address
  /-- The requirement that filled each slot. -/
  origins : List (Slot × RequirementRef)
  deriving DecidableEq

namespace NodePolicy

def empty : NodePolicy := ⟨.empty, .empty, [], .empty, .empty, []⟩

instance : Inhabited NodePolicy := ⟨empty⟩

def routeMap (p : NodePolicy) (neighbor : RouterId) (direction : Direction) : List Clause :=
  (p.routeMaps.get? ⟨neighbor, direction⟩).getD []

def ospfCost? (p : NodePolicy) (neighbor : RouterId) : Option Nat := p.ospfCosts.get? neighbor

def maxPaths? (p : NodePolicy) (protocol : Protocol) : Option Nat := p.maxPaths.get? protocol

def announces (p : NodePolicy) (network : Address) : Bool := p.networks.contains network

def origin? (p : NodePolicy) (slot : Slot) : Option RequirementRef := p.origins.lookup slot

def clauses (p : NodePolicy) : List Clause := p.routeMaps.values.flatten

def matchedPrefixLists (p : NodePolicy) : List PrefixList :=
  (OrderedSet.ofList (p.clauses.filterMap (·.prefixList?))).toList

def matchedCommunities (p : NodePolicy) : List Community :=
  (OrderedSet.ofList (p.clauses.filterMap (·.community?))).toList

def clauseMismatch? (existing requested : Clause) : Option ConflictReason :=
  if existing.verdict ≠ requested.verdict then some .permitAndDeny
  else if !existing.same requested then
    some (.valueMismatch (existing.localPref?.getD Route.defaultLocalPref)
      (requested.localPref?.getD Route.defaultLocalPref))
  else none

def valueMismatch? (existing requested : Nat) : Option ConflictReason :=
  if existing = requested then none else some (.valueMismatch existing requested)

/-- Why a primitive contradicts the policy, and the slot that they compete for. -/
def clash? (p : NodePolicy) (key : PolicyKey) : Primitive → Option (ConflictReason × Slot)
  | .clause c => do
    let existing ← (p.routeMap key.neighbor key.direction).find? (·.conditions = c.conditions)
    let reason ← clauseMismatch? existing c
    return (reason, .clause ⟨key.neighbor, key.direction⟩ c.conditions)
  | .ospfCost n => do
    let existing ← p.ospfCost? key.neighbor
    let reason ← valueMismatch? existing n
    return (reason, .cost key.neighbor)
  | .staticRoute r => do
    let existing ← p.staticRoutes.find? fun s => s.network = r.network && s.nextHop = r.nextHop
    let reason ← valueMismatch? existing.distance r.distance
    return (reason, .staticRoute r.nextHop r.network)
  | _ => none

def noteOrigin (p : NodePolicy) (slot : Slot) (origin : RequirementRef) : NodePolicy :=
  if (p.origin? slot).isSome then p else { p with origins := p.origins ++ [(slot, origin)] }

def addClause (p : NodePolicy) (session : Session) (c : Clause) (origin : RequirementRef) :
    NodePolicy :=
  let clauses := p.routeMap session.neighbor session.direction
  if clauses.any (·.same c) then p
  else { p with routeMaps := p.routeMaps.insert session (clauses ++ [c]) }.noteOrigin
    (.clause session c.conditions) origin

def setCost (p : NodePolicy) (neighbor : RouterId) (n : Nat) (origin : RequirementRef) :
    NodePolicy :=
  { p with ospfCosts := p.ospfCosts.insert neighbor n }.noteOrigin (.cost neighbor) origin

def addStaticRoute (p : NodePolicy) (r : StaticRoute) (origin : RequirementRef) : NodePolicy :=
  if r ∈ p.staticRoutes then p
  else { p with staticRoutes := p.staticRoutes ++ [r] }.noteOrigin
    (.staticRoute r.nextHop r.network) origin

/-- The number of paths only grows. -/
def raiseMaxPaths (p : NodePolicy) (protocol : Protocol) (n : Nat) : NodePolicy :=
  { p with maxPaths := p.maxPaths.update protocol fun current => max (current.getD n) n }

/-- Communities and local preferences are parts of their clauses and not installed on their own. -/
def commit (p : NodePolicy) (e : PolicyEntry) : NodePolicy :=
  match e.primitive with
  | .clause c => p.addClause ⟨e.key.neighbor, e.key.direction⟩ c e.origin
  | .community _ _ => p
  | .localPref _ => p
  | .ospfCost n => p.setCost e.key.neighbor n e.origin
  | .maxPaths protocol n => p.raiseMaxPaths protocol n
  | .staticRoute r => p.addStaticRoute r e.origin
  | .network a => { p with networks := OrderedSet.add p.networks a }

/-- Clauses without conditions come last. The others are ordered by their prefix list, so that the
clauses of one destination stand together, and permitting ones stand before denying ones. -/
def compareClauses : Clause → Clause → Ordering :=
  compareLex (compareOn Clause.isUnconditional) <|
  compareLex (compareOn Clause.prefixList?) <|
  compareLex (compareOn Clause.verdict) (compareOn Clause.community?)

/-- Sorts the clauses and numbers them 10, 20, ... -/
def arrange (clauses : List Clause) : List Clause :=
  (sortBy compareClauses clauses).zipIdx.map fun c => { c.1 with order := (c.2 + 1) * 10 }

def compareStaticRoutes : StaticRoute → StaticRoute → Ordering :=
  compareLex (compareOn StaticRoute.network) <|
  compareLex (compareOn StaticRoute.distance) (compareOn StaticRoute.nextHop)

def finalize (p : NodePolicy) : NodePolicy :=
  { p with
    routeMaps := p.routeMaps.mapValues fun _ clauses => arrange clauses
    staticRoutes := sortBy compareStaticRoutes p.staticRoutes }

def clausePrimitives (c : Clause) : List Primitive :=
  .clause c :: c.actions.map Primitive.ofAction

/-- Everything that is installed on a router. The actions of a clause follow the clause. -/
def primitives (p : NodePolicy) (r : RouterId) : List (PolicyKey × Primitive) :=
  (p.routeMaps.entries.flatMap fun (session, clauses) =>
    (clauses.flatMap clausePrimitives).map (⟨r, session.neighbor, session.direction⟩, ·)) ++
  (p.ospfCosts.entries.map fun (neighbor, n) => (⟨r, neighbor, .outgoing⟩, .ospfCost n)) ++
  (p.staticRoutes.map fun s => (⟨r, s.nextHop, .outgoing⟩, .staticRoute s)) ++
  (p.maxPaths.entries.map fun (protocol, n) => (.ofRouter r, .maxPaths protocol n)) ++
  (p.networks.toList.map fun a => (.ofRouter r, .network a))

end NodePolicy

end PathPolicy
