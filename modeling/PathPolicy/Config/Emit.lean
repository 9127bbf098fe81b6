import PathPolicy.Config.Device
import PathPolicy.Policy.Model

/-! The device configurations that put a policy model into force. -/

namespace PathPolicy

def ospfProcessId : Nat := 100

namespace ClauseConfig

def ofCondition : Condition → String × String
  | .prefixList l => ("ip address prefix-list", l.name)
  | .community c => ("community", c.listName)

def ofAction : SetAction → String × String
  | .community c true => ("community", c.text ++ " additive")
  | .community c false => ("community", c.text)
  | .localPref n => ("local-preference", toString n)

def ofClause (c : Clause) : ClauseConfig where
  verdict := c.verdict
  seq := c.order
  conditions := c.conditions.map ofCondition
  actions := c.actions.map ofAction

def permitAll (seq : Nat) : ClauseConfig := ⟨.permit, seq, [], []⟩

end ClauseConfig

namespace RouteMapConfig

/-- A last clause lets all other routes pass. -/
def ofClauses (name : String) (clauses : List Clause) : RouteMapConfig :=
  let configs := clauses.map ClauseConfig.ofClause
  let seq := match configs.getLast? with
    | some last => last.seq + 10
    | none => 10
  ⟨name, configs ++ [.permitAll seq]⟩

end RouteMapConfig

namespace PolicyModel

def loopbackInterface (index : Nat) (address : Address) : InterfaceConfig :=
  ⟨s!"lo{index}", address, none, none⟩

def linkInterface? (m : PolicyModel) (t : Topology) (r neighbor : RouterId) :
    Option InterfaceConfig := do
  let interface ← t.interface? r neighbor
  return {
    name := interface.name
    address := interface.address
    description := some ("To " ++ t.name neighbor)
    ospfCost := (m.policy r).ospfCost? neighbor }

def interfaces (m : PolicyModel) (t : Topology) (r : RouterId) (router : Router) :
    List InterfaceConfig :=
  (router.loopbacks.zipIdx.map fun a => loopbackInterface a.2 a.1) ++
    (t.neighbors r).filterMap (m.linkInterface? t r)

/-- A BGP session needs AS numbers at both ends. -/
def bgpNeighbor? (t : Topology) (r neighbor : RouterId) : Option BgpNeighborConfig := do
  let remoteAs ← t.asn? neighbor
  let interface ← t.interface? neighbor r
  return {
    name := t.name neighbor
    ip := interface.address.ip
    remoteAs
    routeMapIn := routeMapName (t.name r) (t.name neighbor) .incoming
    routeMapOut := routeMapName (t.name r) (t.name neighbor) .outgoing }

def bgpSessions (t : Topology) (r : RouterId) : List (RouterId × BgpNeighborConfig) :=
  (t.neighbors r).filterMap fun b => (bgpNeighbor? t r b).map (b, ·)

def sessionRouteMaps (m : PolicyModel) (r : RouterId) (session : RouterId × BgpNeighborConfig) :
    List RouteMapConfig :=
  let p := m.policy r
  [.ofClauses session.2.routeMapIn (p.routeMap session.1 .incoming),
    .ofClauses session.2.routeMapOut (p.routeMap session.1 .outgoing)]

def bgpConfig (m : PolicyModel) (t : Topology) (r : RouterId) (router : Router) (asn : Nat) :
    BgpConfig where
  asn := asn
  routerId := router.loopbacks.head?.map (·.ip)
  networks := (m.policy r).networks.toList
  neighbors := (bgpSessions t r).map (·.2)
  maxPaths := (m.policy r).maxPaths? .bgp

def staticRoute? (t : Topology) (r : RouterId) (s : StaticRoute) : Option StaticRouteConfig := do
  let interface ← t.interface? s.nextHop r
  return ⟨s.network, interface.address.ip, s.distance⟩

def deviceOf (m : PolicyModel) (t : Topology) (r : RouterId) (router : Router) : DeviceConfig :=
  let p := m.policy r
  let interfaces := m.interfaces t r router
  { name := router.name
    interfaces
    ospf := {
      processId := ospfProcessId
      networks := (interfaces.map (·.address.network)).eraseDups
      maxPaths := p.maxPaths? .ospf }
    prefixLists := p.matchedPrefixLists
    communityLists := p.matchedCommunities.map fun c => ⟨c.listName, c⟩
    routeMaps := match router.asn with
      | some _ => (bgpSessions t r).flatMap (m.sessionRouteMaps r)
      | none => []
    bgp := router.asn.map (m.bgpConfig t r router)
    staticRoutes := p.staticRoutes.filterMap (staticRoute? t r) }

/-- A router that does not exist has no configuration. -/
def device? (m : PolicyModel) (t : Topology) (r : RouterId) : Option DeviceConfig :=
  (t.router? r).map (m.deviceOf t r)

/-- The configurations of all routers, by their names. -/
def devices (m : PolicyModel) (t : Topology) : List DeviceConfig :=
  t.routersByName.filterMap (m.device? t)

def render (m : PolicyModel) (t : Topology) : String := DeviceConfig.textOfAll (m.devices t)

end PolicyModel

end PathPolicy
