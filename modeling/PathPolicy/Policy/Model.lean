import PathPolicy.Policy.Node

/-! The policies of all routers. -/

namespace PathPolicy

structure PolicyModel where
  nodes : OrderedMap RouterId NodePolicy
  deriving DecidableEq

namespace PolicyModel

def empty : PolicyModel := ⟨.empty⟩

def size (m : PolicyModel) : Nat := m.nodes.size

def isEmpty (m : PolicyModel) : Bool := m.nodes.isEmpty

def get? (m : PolicyModel) (r : RouterId) : Option NodePolicy := m.nodes.get? r

def policy (m : PolicyModel) (r : RouterId) : NodePolicy := (m.get? r).getD .empty

def conflict? (t : Topology) (p : NodePolicy) (e : PolicyEntry) : Option Conflict :=
  (p.clash? e.key e.primitive).map fun clash => {
    node := t.name e.key.router
    neighbor := t.name e.key.neighbor
    requirement := e.origin
    other := p.origin? clash.2
    reason := clash.1 }

/-- Installs all entries of a bundle, or none if one of them contradicts the policy that is already
there. The router has an entry in the model in either case. -/
def merge (t : Topology) (m : PolicyModel) (b : Bundle) : PolicyModel × Option Conflict :=
  let p := m.policy b.router
  match b.entries.findSome? (conflict? t p) with
  | some c => (⟨m.nodes.insert b.router p⟩, some c)
  | none => (⟨m.nodes.insert b.router (b.entries.foldl NodePolicy.commit p)⟩, none)

/-- Drops routers without policy, and orders the policies of the others. -/
def finalize (m : PolicyModel) : PolicyModel :=
  ⟨(m.nodes.filter fun _ p => p ≠ .empty).mapValues fun _ p => p.finalize⟩

def primitives (m : PolicyModel) : List (PolicyKey × Primitive) :=
  m.nodes.entries.flatMap fun (r, p) => p.primitives r

end PolicyModel

end PathPolicy
