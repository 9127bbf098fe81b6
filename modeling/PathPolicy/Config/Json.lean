import PathPolicy.Config.Device
import PathPolicy.Topology.Description

/-! The JSON form of device configurations. -/

namespace PathPolicy

namespace Address

def toJson (a : Address) : Json := .text a.text

end Address

namespace Ipv4

def toJson (ip : Ipv4) : Json := .text ip.text

def ofJson? (j : Json) : Option Ipv4 := do ofText? (← j.text?)

end Ipv4

namespace Community

def toJson (c : Community) : Json :=
  .record [("asn", .natural c.asn), ("value", .natural c.value)]

def ofJson? (j : Json) : Option Community := do
  match ← j.fields? 2 ["asn", "value"] with
  | [asn, value] => return ⟨← Json.required? Json.nat32? asn, ← Json.required? Json.nat32? value⟩
  | _ => none

end Community

namespace Verdict

def variantName : Verdict → String
  | permit => "Allow"
  | deny => "Deny"

def ofVariantName? : String → Option Verdict
  | "Allow" => some permit
  | "Deny" => some deny
  | _ => none

def toJson (v : Verdict) : Json := .text v.variantName

def ofJson? : Json → Option Verdict := Json.bareAlternative? ofVariantName?

end Verdict

def textPairToJson (p : String × String) : Json := .array [.text p.1, .text p.2]

def textPairOfJson? : Json → Option (String × String) := Json.pair? Json.text? Json.text?

namespace InterfaceConfig

def toJson (i : InterfaceConfig) : Json :=
  .record [("name", .text i.name), ("addr", i.address.toJson),
    ("description", .ofOption Json.text i.description),
    ("ospf_cost", .ofOption Json.natural i.ospfCost)]

def ofJson? (j : Json) : Option InterfaceConfig := do
  match ← j.fields? 4 ["name", "addr", "description", "ospf_cost"] with
  | [name, address, description, ospfCost] =>
    return {
      name := ← Json.required? Json.text? name
      address := ← Json.required? Address.ofJson? address
      description := ← Json.optional? Json.text? description
      ospfCost := ← Json.optional? Json.nat32? ospfCost }
  | _ => none

end InterfaceConfig

namespace OspfConfig

def toJson (o : OspfConfig) : Json :=
  .record [("process_id", .natural o.processId), ("networks", .ofList Address.toJson o.networks),
    ("max_paths", .ofOption Json.natural o.maxPaths)]

def ofJson? (j : Json) : Option OspfConfig := do
  match ← j.fields? 3 ["process_id", "networks", "max_paths"] with
  | [processId, networks, maxPaths] =>
    return {
      processId := ← Json.required? Json.nat32? processId
      networks := ← Json.required? (Json.list? Address.ofJson?) networks
      maxPaths := ← Json.optional? Json.nat32? maxPaths }
  | _ => none

end OspfConfig

namespace PrefixList

def toJson (l : PrefixList) : Json :=
  .record [("name", .text l.name), ("networks", .ofList Address.toJson l.networks)]

def ofJson? (j : Json) : Option PrefixList := do
  match ← j.fields? 2 ["name", "networks"] with
  | [name, networks] =>
    return {
      name := ← Json.required? Json.text? name
      networks := ← Json.required? (Json.list? Address.ofJson?) networks }
  | _ => none

end PrefixList

namespace CommunityList

def toJson (l : CommunityList) : Json :=
  .record [("name", .text l.name), ("community", l.community.toJson)]

def ofJson? (j : Json) : Option CommunityList := do
  match ← j.fields? 2 ["name", "community"] with
  | [name, community] =>
    return {
      name := ← Json.required? Json.text? name
      community := ← Json.required? Community.ofJson? community }
  | _ => none

end CommunityList

namespace ClauseConfig

def toJson (c : ClauseConfig) : Json :=
  .record [("state", c.verdict.toJson), ("seq", .natural c.seq),
    ("matches", .ofList textPairToJson c.conditions), ("sets", .ofList textPairToJson c.actions)]

def ofJson? (j : Json) : Option ClauseConfig := do
  match ← j.fields? 4 ["state", "seq", "matches", "sets"] with
  | [verdict, seq, conditions, actions] =>
    return {
      verdict := ← Json.required? Verdict.ofJson? verdict
      seq := ← Json.required? Json.nat64? seq
      conditions := ← Json.required? (Json.list? textPairOfJson?) conditions
      actions := ← Json.required? (Json.list? textPairOfJson?) actions }
  | _ => none

end ClauseConfig

namespace RouteMapConfig

def toJson (m : RouteMapConfig) : Json :=
  .record [("name", .text m.name), ("clauses", .ofList ClauseConfig.toJson m.clauses)]

def ofJson? (j : Json) : Option RouteMapConfig := do
  match ← j.fields? 2 ["name", "clauses"] with
  | [name, clauses] =>
    return {
      name := ← Json.required? Json.text? name
      clauses := ← Json.required? (Json.list? ClauseConfig.ofJson?) clauses }
  | _ => none

end RouteMapConfig

namespace BgpNeighborConfig

def toJson (n : BgpNeighborConfig) : Json :=
  .record [("name", .text n.name), ("addr", n.ip.toJson), ("remote_as", .natural n.remoteAs),
    ("route_map_in", .text n.routeMapIn), ("route_map_out", .text n.routeMapOut)]

def ofJson? (j : Json) : Option BgpNeighborConfig := do
  match ← j.fields? 5 ["name", "addr", "remote_as", "route_map_in", "route_map_out"] with
  | [name, ip, remoteAs, routeMapIn, routeMapOut] =>
    return {
      name := ← Json.required? Json.text? name
      ip := ← Json.required? Ipv4.ofJson? ip
      remoteAs := ← Json.required? Json.nat32? remoteAs
      routeMapIn := ← Json.required? Json.text? routeMapIn
      routeMapOut := ← Json.required? Json.text? routeMapOut }
  | _ => none

end BgpNeighborConfig

namespace BgpConfig

def toJson (b : BgpConfig) : Json :=
  .record [("as_id", .natural b.asn), ("router_id", .ofOption Ipv4.toJson b.routerId),
    ("networks", .ofList Address.toJson b.networks),
    ("neighbors", .ofList BgpNeighborConfig.toJson b.neighbors),
    ("max_paths", .ofOption Json.natural b.maxPaths)]

def ofJson? (j : Json) : Option BgpConfig := do
  match ← j.fields? 5 ["as_id", "router_id", "networks", "neighbors", "max_paths"] with
  | [asn, routerId, networks, neighbors, maxPaths] =>
    return {
      asn := ← Json.required? Json.nat32? asn
      routerId := ← Json.optional? Ipv4.ofJson? routerId
      networks := ← Json.required? (Json.list? Address.ofJson?) networks
      neighbors := ← Json.required? (Json.list? BgpNeighborConfig.ofJson?) neighbors
      maxPaths := ← Json.optional? Json.nat32? maxPaths }
  | _ => none

end BgpConfig

namespace StaticRouteConfig

def toJson (r : StaticRouteConfig) : Json :=
  .record [("prefix", r.network.toJson), ("next_hop", r.nextHop.toJson),
    ("distance", .natural r.distance)]

def ofJson? (j : Json) : Option StaticRouteConfig := do
  match ← j.fields? 3 ["prefix", "next_hop", "distance"] with
  | [network, nextHop, distance] =>
    return {
      network := ← Json.required? Address.ofJson? network
      nextHop := ← Json.required? Ipv4.ofJson? nextHop
      distance := ← Json.required? Json.nat32? distance }
  | _ => none

end StaticRouteConfig

namespace DeviceConfig

def toJson (d : DeviceConfig) : Json :=
  .record [("name", .text d.name), ("interfaces", .ofList InterfaceConfig.toJson d.interfaces),
    ("ospf", d.ospf.toJson), ("prefix_lists", .ofList PrefixList.toJson d.prefixLists),
    ("community_lists", .ofList CommunityList.toJson d.communityLists),
    ("route_maps", .ofList RouteMapConfig.toJson d.routeMaps),
    ("bgp", .ofOption BgpConfig.toJson d.bgp),
    ("static_routes", .ofList StaticRouteConfig.toJson d.staticRoutes)]

def fieldNames : List String :=
  ["name", "interfaces", "ospf", "prefix_lists", "community_lists", "route_maps", "bgp",
    "static_routes"]

def ofJson? (j : Json) : Option DeviceConfig := do
  match ← j.fields? 8 fieldNames with
  | [name, interfaces, ospf, prefixLists, communityLists, routeMaps, bgp, staticRoutes] =>
    return {
      name := ← Json.required? Json.text? name
      interfaces := ← Json.required? (Json.list? InterfaceConfig.ofJson?) interfaces
      ospf := ← Json.required? OspfConfig.ofJson? ospf
      prefixLists := ← Json.required? (Json.list? PrefixList.ofJson?) prefixLists
      communityLists := ← Json.required? (Json.list? CommunityList.ofJson?) communityLists
      routeMaps := ← Json.required? (Json.list? RouteMapConfig.ofJson?) routeMaps
      bgp := ← Json.optional? BgpConfig.ofJson? bgp
      staticRoutes := ← Json.required? (Json.list? StaticRouteConfig.ofJson?) staticRoutes }
  | _ => none

def ofJsonText? (s : String) : Option DeviceConfig := do ofJson? (← Json.read? s)

end DeviceConfig

end PathPolicy
