import PathPolicy.Json.Decode
import PathPolicy.Json.Reader
import PathPolicy.Requirement

/-! The JSON form of requirements. -/

namespace PathPolicy

namespace Protocol

def variantName : Protocol → String
  | bgp => "Bgp"
  | ospf => "Ospf"
  | static => "Static"

def ofVariantName? : String → Option Protocol
  | "Bgp" => some bgp
  | "Ospf" => some ospf
  | "Static" => some static
  | _ => none

def toJson (p : Protocol) : Json := .text p.variantName

def ofJson? : Json → Option Protocol := Json.bareAlternative? ofVariantName?

end Protocol

namespace RequirementKind

def variantName : RequirementKind → String
  | path => "Path"
  | order => "PathOrder"
  | ecmp => "Ecmp"
  | kConnected => "KConnected"

def ofVariantName? : String → Option RequirementKind
  | "Path" => some path
  | "PathOrder" => some order
  | "Ecmp" => some ecmp
  | "KConnected" => some kConnected
  | _ => none

end RequirementKind

namespace PathReq

def toJson (r : PathReq) : Json :=
  .record [("protocol", r.protocol.toJson), ("destination", .text r.destination),
    ("path", .ofList Json.text r.path), ("exact", .bool r.exact)]

def ofJson? (j : Json) : Option PathReq := do
  match ← j.fields? 4 ["protocol", "destination", "path", "exact"] with
  | [protocol, destination, path, exact] =>
    return {
      protocol := ← Json.required? Protocol.ofJson? protocol
      destination := ← Json.required? Json.text? destination
      path := ← Json.required? (Json.list? Json.text?) path
      exact := ← Json.required? Json.bool? exact }
  | _ => none

end PathReq

namespace PathSetReq

def toJson (r : PathSetReq) : Json :=
  .record [("protocol", r.protocol.toJson), ("destination", .text r.destination),
    ("paths", .ofList PathReq.toJson r.members), ("exact", .bool r.exact)]

def ofJson? (j : Json) : Option PathSetReq := do
  match ← j.fields? 4 ["protocol", "destination", "paths", "exact"] with
  | [protocol, destination, members, exact] =>
    return {
      protocol := ← Json.required? Protocol.ofJson? protocol
      destination := ← Json.required? Json.text? destination
      members := ← Json.required? (Json.list? PathReq.ofJson?) members
      exact := ← Json.required? Json.bool? exact }
  | _ => none

end PathSetReq

namespace Requirement

def contentsToJson : Requirement → Json
  | path r => r.toJson
  | order r | ecmp r | kConnected r => r.toJson

def toJson (r : Requirement) : Json := .record [(r.kind.variantName, r.contentsToJson)]

def ofJson? (j : Json) : Option Requirement := do
  match ← Json.alternative? j with
  | (name, some contents) =>
    match ← RequirementKind.ofVariantName? name with
    | .path => path <$> PathReq.ofJson? contents
    | .order => order <$> PathSetReq.ofJson? contents
    | .ecmp => ecmp <$> PathSetReq.ofJson? contents
    | .kConnected => kConnected <$> PathSetReq.ofJson? contents
  | (_, none) => none

def ofJsonText? (s : String) : Option Requirement := do ofJson? (← Json.read? s)

end Requirement

end PathPolicy
