import PathPolicy.Requirement
import PathPolicy.RouteMap

/-! The elements of the policy of a router. -/

namespace PathPolicy

/-- Settings of a router itself, like the number of paths, have the router as neighbor. -/
structure PolicyKey where
  router : RouterId
  neighbor : RouterId
  direction : Direction
  deriving DecidableEq, Repr

namespace PolicyKey

instance : Ord PolicyKey :=
  ⟨compareLex (compareOn router) (compareLex (compareOn neighbor) (compareOn direction))⟩

instance : Std.TransOrd PolicyKey :=
  inferInstanceAs (Std.TransCmp
    (compareLex (compareOn router) (compareLex (compareOn neighbor) (compareOn direction))))

instance : Std.LawfulEqOrd PolicyKey where
  eq_of_compare {a b} h := by
    obtain ⟨h₁, h₂⟩ := compareLex_eq_eq.mp h
    obtain ⟨h₂, h₃⟩ := compareLex_eq_eq.mp h₂
    cases a; cases b
    obtain rfl := Std.LawfulEqOrd.eq_of_compare h₁
    obtain rfl := Std.LawfulEqOrd.eq_of_compare h₂
    obtain rfl := Std.LawfulEqOrd.eq_of_compare h₃
    rfl

def ofRouter (r : RouterId) : PolicyKey := ⟨r, r, .outgoing⟩

end PolicyKey

structure StaticRoute where
  network : Address
  nextHop : RouterId
  distance : Nat
  deriving DecidableEq, Repr

inductive Primitive
  | clause (c : Clause)
  | community (c : Community) (additive : Bool)
  | localPref (n : Nat)
  /-- The cost of the interface toward the neighbor. -/
  | ospfCost (n : Nat)
  /-- The number of equally good paths in use. -/
  | maxPaths (protocol : Protocol) (n : Nat)
  | staticRoute (r : StaticRoute)
  /-- A network that the BGP process announces. -/
  | network (a : Address)
  deriving DecidableEq, Repr

namespace Primitive

def ofAction : SetAction → Primitive
  | .community c additive => community c additive
  | .localPref n => localPref n

end Primitive

structure PolicyEntry where
  key : PolicyKey
  primitive : Primitive
  origin : RequirementRef
  deriving DecidableEq, Repr

/-- What one group of requirements installs on one router. -/
structure Bundle where
  router : RouterId
  entries : List PolicyEntry
  deriving DecidableEq, Repr

end PathPolicy
