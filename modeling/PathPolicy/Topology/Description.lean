import PathPolicy.Json.Decode
import PathPolicy.Json.Reader
import PathPolicy.Topology

/-! The structural description of a topology, and its JSON form. -/

namespace PathPolicy

namespace Address

def ofJson? (j : Json) : Option Address := do
  let s ← j.text?
  (parse s).toOption

end Address

structure Description where
  nodes : List Router
  edges : List (Endpoint × Endpoint)
  deriving DecidableEq, Repr

namespace Description

/-- Containers may nest this deep below the list of nodes. -/
def nodeDepth : Nat := 125

/-- A node is its name, or an object with its name, AS number and loopbacks. -/
def nodeOfJson? (j : Json) : Option Router :=
  if !j.isStrict nodeDepth then none
  else match j with
    | .string s => s.map fun name => ⟨name, none, []⟩
    | j => do
      match ← j.fieldsOfObject? [["name"], ["as_number", "asnum"], ["loopbacks"]] with
      | [name, asn, loopbacks] =>
        return {
          name := ← Json.required? Json.text? name
          asn := ← Json.optional? Json.nat32? asn
          loopbacks := ← Json.withDefault? [] (Json.list? Address.ofJson?) loopbacks }
      | _ => none

def endpointOfJson? (j : Json) : Option Endpoint := do
  match ← j.fields? 3 ["name", "interface", "ip"] with
  | [name, interface, ip] =>
    return {
      node := ← Json.required? Json.text? name
      interface := ← Json.required? Json.text? interface
      address := ← Json.required? Address.ofJson? ip }
  | _ => none

def edgeOfJson? (j : Json) : Option (Endpoint × Endpoint) := do
  match ← j.fields? 2 ["node1", "node2"] with
  | [node1, node2] =>
    return (← Json.required? endpointOfJson? node1, ← Json.required? endpointOfJson? node2)
  | _ => none

def ofJson? (j : Json) : Option Description := do
  match ← j.fields? 1 ["nodes", "edges"] with
  | [nodes, edges] =>
    return {
      nodes := ← Json.required? (Json.list? nodeOfJson?) nodes
      edges := ← Json.withDefault? [] (Json.list? edgeOfJson?) edges }
  | _ => none

def ofText? (s : String) : Option Description := do ofJson? (← Json.read? s)

end Description

namespace Topology

/-- Adds all routers, then all links. -/
def ofDescription (d : Description) : Except TopologyError Topology := do
  let t ← d.nodes.foldlM addRouter empty
  d.edges.foldlM (fun t e => t.addLink e.1 e.2) t

end Topology

end PathPolicy
