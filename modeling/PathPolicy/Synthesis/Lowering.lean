import PathPolicy.RouteMap.Draft
import PathPolicy.Synthesis.Intent

/-! The policy elements that put a decision into force. -/

namespace PathPolicy

/-- How the routes of a group are told apart from all others. -/
structure GroupMark where
  protocol : Protocol
  destination : RouterId
  /-- Attached to BGP routes at the neighbors of the destination. -/
  community : Community
  networks : List Address
  deriving DecidableEq, Repr

def defaultCommunityAsn : Nat := 100

def prefixListName (c : Community) : String :=
  let asn := c.asn
  let value := c.value
  s!"PL_{asn}_{value}"

namespace GroupMark

def prefixList (m : GroupMark) : PrefixList := ⟨prefixListName m.community, m.networks⟩

def ofDestination (m : GroupMark) : Condition := .prefixList m.prefixList

def denyClause (m : GroupMark) : Clause := ⟨ClauseDraft.defaultOrder, [m.ofDestination], .deny⟩

/-- Routes that come from the destination itself get the community. -/
def firstHopClause (m : GroupMark) (localPref : Nat) : Clause :=
  ⟨ClauseDraft.defaultOrder, [m.ofDestination],
    .permit [.community m.community true, .localPref localPref]⟩

def nextHopClause (m : GroupMark) (localPref : Nat) : Clause :=
  ⟨ClauseDraft.defaultOrder, [m.ofDestination, .community m.community],
    .permit [.localPref localPref]⟩

/-- Past the first hop, routes without the community are dropped. -/
def clauses (m : GroupMark) (neighbor : RouterId) : Decision → List Clause
  | .permit localPref =>
    if neighbor = m.destination then [m.firstHopClause localPref]
    else [m.nextHopClause localPref, m.denyClause]
  | .deny => [m.denyClause]

def staticRoutes (m : GroupMark) (neighbor : RouterId) : Decision → List StaticRoute
  | .permit distance => m.networks.map fun network => ⟨network, neighbor, distance⟩
  | .deny => []

def cost : Decision → Nat
  | .permit cost => cost
  | .deny => denyOspfCost

def lower (m : GroupMark) (neighbor : RouterId) (d : Decision) : List Primitive :=
  match m.protocol with
  | .bgp => (m.clauses neighbor d).map .clause
  | .ospf => [.ospfCost (cost d)]
  | .static => (m.staticRoutes neighbor d).map .staticRoute

end GroupMark

end PathPolicy
