import PathPolicy.RouteMap

/-! The configuration of a single device, and its text. -/

namespace PathPolicy

structure InterfaceConfig where
  name : String
  address : Address
  description : Option String
  ospfCost : Option Nat
  deriving DecidableEq, Repr

structure OspfConfig where
  processId : Nat
  networks : List Address
  maxPaths : Option Nat
  deriving DecidableEq, Repr

structure CommunityList where
  name : String
  community : Community
  deriving DecidableEq, Repr

/-- Conditions and actions are pairs of a keyword and a value. -/
structure ClauseConfig where
  verdict : Verdict
  seq : Nat
  conditions : List (String × String)
  actions : List (String × String)
  deriving DecidableEq, Repr

structure RouteMapConfig where
  name : String
  clauses : List ClauseConfig
  deriving DecidableEq, Repr

structure BgpNeighborConfig where
  name : String
  ip : Ipv4
  remoteAs : Nat
  routeMapIn : String
  routeMapOut : String
  deriving DecidableEq, Repr

structure BgpConfig where
  asn : Nat
  routerId : Option Ipv4
  networks : List Address
  neighbors : List BgpNeighborConfig
  maxPaths : Option Nat
  deriving DecidableEq, Repr

structure StaticRouteConfig where
  network : Address
  nextHop : Ipv4
  distance : Nat
  deriving DecidableEq, Repr

structure DeviceConfig where
  name : String
  interfaces : List InterfaceConfig
  ospf : OspfConfig
  prefixLists : List PrefixList
  communityLists : List CommunityList
  routeMaps : List RouteMapConfig
  bgp : Option BgpConfig
  staticRoutes : List StaticRouteConfig
  deriving DecidableEq, Repr

/-- Ends a stanza. -/
def stanzaEnd : String := "!"

/-- A stanza without lines is left out together with its end. -/
def stanza : List String → List String
  | [] => []
  | lines => lines ++ [stanzaEnd]

namespace InterfaceConfig

def lines (i : InterfaceConfig) : List String :=
  let name := i.name
  let ip := i.address.ip.text
  let mask := i.address.mask.text
  stanza ([s!"interface {name}", s!" ip address {ip} {mask}"] ++
    i.description.toList.map (fun text => s!" description \"{text}\"") ++
    i.ospfCost.toList.map fun cost => s!" ip ospf cost {cost}")

end InterfaceConfig

def maxPathsLine (n : Nat) : String := s!" maximum-paths {n}"

namespace OspfConfig

def networkLine (a : Address) : String :=
  let ip := a.ip.text
  let wildcard := a.wildcard.text
  s!" network {ip} {wildcard} area 0"

def lines (o : OspfConfig) : List String :=
  let id := o.processId
  stanza (s!"router ospf {id}" :: o.networks.map networkLine ++
    o.maxPaths.toList.map maxPathsLine)

end OspfConfig

namespace PrefixList

/-- The networks are numbered 5, 10, ... -/
def lines (l : PrefixList) : List String :=
  let name := l.name
  l.networks.zipIdx.map fun n =>
    let seq := (n.2 + 1) * 5
    let network := n.1.text
    s!"ip prefix-list {name} seq {seq} permit {network}"

/-- The stanza is there as soon as there is a list, even if no list has a network. -/
def stanzaOf (ls : List PrefixList) : List String :=
  if ls.isEmpty then [] else ls.flatMap lines ++ [stanzaEnd]

end PrefixList

namespace CommunityList

def line (l : CommunityList) : String :=
  let name := l.name
  let community := l.community.text
  s!"ip community-list standard {name} permit {community}"

end CommunityList

namespace ClauseConfig

def conditionLine (c : String × String) : String :=
  let keyword := c.1
  let value := c.2
  s!" match {keyword} {value}"

def actionLine (a : String × String) : String :=
  let keyword := a.1
  let value := a.2
  s!" set {keyword} {value}"

def lines (routeMap : String) (c : ClauseConfig) : List String :=
  let verdict := c.verdict.text
  let seq := c.seq
  stanza (s!"route-map {routeMap} {verdict} {seq}" :: c.conditions.map conditionLine ++
    c.actions.map actionLine)

end ClauseConfig

namespace RouteMapConfig

def lines (m : RouteMapConfig) : List String := m.clauses.flatMap (·.lines m.name)

end RouteMapConfig

namespace BgpNeighborConfig

def lines (n : BgpNeighborConfig) : List String :=
  let ip := n.ip.text
  let name := n.name
  let remoteAs := n.remoteAs
  let routeMapIn := n.routeMapIn
  let routeMapOut := n.routeMapOut
  [s!" neighbor {ip} remote-as {remoteAs}", s!" neighbor {ip} description \"To {name}\"",
    s!" neighbor {ip} route-map {routeMapIn} in", s!" neighbor {ip} route-map {routeMapOut} out",
    s!" neighbor {ip} send-community"]

end BgpNeighborConfig

namespace BgpConfig

def networkLine (a : Address) : String :=
  let ip := a.ip.text
  let mask := a.mask.text
  s!" network {ip} mask {mask}"

def routerIdLine (ip : Ipv4) : String :=
  let id := ip.text
  s!" bgp router-id {id}"

def multipathLines (n : Nat) : List String :=
  [maxPathsLine n, " bgp bestpath as-path multipath-relax"]

def lines (b : BgpConfig) : List String :=
  let asn := b.asn
  stanza (s!"router bgp {asn}" :: b.routerId.toList.map routerIdLine ++
    b.neighbors.flatMap (·.lines) ++ b.networks.map networkLine ++
    b.maxPaths.toList.flatMap multipathLines)

end BgpConfig

namespace StaticRouteConfig

def line (r : StaticRouteConfig) : String :=
  let ip := r.network.ip.text
  let mask := r.network.mask.text
  let nextHop := r.nextHop.text
  let distance := r.distance
  s!"ip route {ip} {mask} {nextHop} {distance}"

end StaticRouteConfig

namespace DeviceConfig

def headerLine (name : String) : String := s!"Configuration of {name}:"

def lines (d : DeviceConfig) : List String :=
  headerLine d.name :: d.interfaces.flatMap (·.lines) ++ d.ospf.lines ++
    PrefixList.stanzaOf d.prefixLists ++ stanza (d.communityLists.map (·.line)) ++
    d.routeMaps.flatMap (·.lines) ++ d.bgp.toList.flatMap (·.lines) ++
    stanza (d.staticRoutes.map (·.line))

/-- Each line ends with a line feed. -/
def text (d : DeviceConfig) : String := String.join (d.lines.map (· ++ "\n"))

/-- Devices are separated by an empty line. -/
def textOfAll (ds : List DeviceConfig) : String := "\n".intercalate (ds.map text)

end DeviceConfig

end PathPolicy
