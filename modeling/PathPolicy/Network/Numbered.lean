import PathPolicy.Topology

/-! Networks that are given by the names of linked routers only. -/

namespace PathPolicy.Network

/-- The loopback of router number `n`, counted from one. -/
def loopback (n : Nat) : Address := .host (.ofOctets 192 168 (n / 256) (n % 256))

/-- Adds the next router, with the next AS number above 65000, unless the name is known. -/
def ensureRouter (t : Topology) (name : String) : Except TopologyError Topology :=
  match t.routerId? name with
  | some _ => .ok t
  | none => t.addRouter ⟨name, some (65000 + (t.size + 1)), [loopback (t.size + 1)]⟩

def ensureLink (t : Topology) (link : String × String) : Except TopologyError Topology := do
  let t ← ensureRouter t link.1
  let t ← ensureRouter t link.2
  t.connect link.1 link.2

/-- Routers are added when their first link is. -/
def ofLinks (links : List (String × String)) : Except TopologyError Topology :=
  links.foldlM ensureLink .empty

end PathPolicy.Network
