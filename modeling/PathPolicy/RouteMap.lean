import PathPolicy.Direction
import PathPolicy.Route

/-! Route maps. A clause applies to the routes that meet all of its conditions, and the first
clause that applies decides. A route that no clause applies to passes unchanged. -/

namespace PathPolicy

/-- A route matches if its network is exactly one of the networks. -/
structure PrefixList where
  name : String
  networks : List Address
  deriving DecidableEq, Repr

namespace PrefixList

def contains (l : PrefixList) (network : Address) : Bool := l.networks.contains network

instance : Ord PrefixList := ⟨compareLex (compareOn name) (compareOn networks)⟩

instance : Std.TransOrd PrefixList :=
  inferInstanceAs (Std.TransCmp (compareLex (compareOn name) (compareOn networks)))

instance : Std.LawfulEqOrd PrefixList where
  eq_of_compare {a b} h := by
    obtain ⟨h₁, h₂⟩ := compareLex_eq_eq.mp h
    cases a; cases b
    exact congr (congrArg mk (Std.LawfulEqOrd.eq_of_compare h₁)) (Std.LawfulEqOrd.eq_of_compare h₂)

end PrefixList

inductive Verdict
  | permit
  | deny
  deriving DecidableEq, Repr

namespace Verdict

def text : Verdict → String
  | permit => "permit"
  | deny => "deny"

def rank : Verdict → Nat
  | permit => 0
  | deny => 1

theorem rank_injective {v w : Verdict} (h : v.rank = w.rank) : v = w := by
  cases v <;> cases w <;> simp_all [rank]

instance : Ord Verdict := ⟨compareOn rank⟩

instance : Std.TransOrd Verdict := inferInstanceAs (Std.TransCmp (compareOn rank))

instance : Std.LawfulEqOrd Verdict where
  eq_of_compare h := rank_injective (Std.LawfulEqOrd.eq_of_compare h)

end Verdict

inductive Condition
  | prefixList (l : PrefixList)
  | community (c : Community)
  deriving DecidableEq, Repr

namespace Condition

def holds (r : Route) : Condition → Bool
  | prefixList l => l.contains r.network
  | community c => r.communities.contains c

def prefixList? : Condition → Option PrefixList
  | prefixList l => some l
  | community _ => none

def community? : Condition → Option Community
  | prefixList _ => none
  | community c => some c

end Condition

inductive SetAction
  /-- An additive action keeps the communities of the route. -/
  | community (c : Community) (additive : Bool)
  | localPref (n : Nat)
  deriving DecidableEq, Repr

namespace SetAction

def apply (r : Route) : SetAction → Route
  | community c true => r.addCommunity c
  | community c false => r.replaceCommunities c
  | localPref n => r.withLocalPref n

def localPref? : SetAction → Option Nat
  | community _ _ => none
  | localPref n => some n

end SetAction

/-- Only a permitting clause changes routes. -/
inductive Effect
  | permit (actions : List SetAction)
  | deny
  deriving DecidableEq, Repr

namespace Effect

def verdict : Effect → Verdict
  | permit _ => .permit
  | deny => .deny

def actions : Effect → List SetAction
  | permit actions => actions
  | deny => []

def apply (r : Route) : Effect → Option Route
  | permit actions => some (actions.foldl SetAction.apply r)
  | deny => none

end Effect

structure Clause where
  order : Nat
  conditions : List Condition
  effect : Effect
  deriving DecidableEq, Repr

namespace Clause

def verdict (c : Clause) : Verdict := c.effect.verdict

def actions (c : Clause) : List SetAction := c.effect.actions

def applies (c : Clause) (r : Route) : Bool := c.conditions.all (·.holds r)

def isUnconditional (c : Clause) : Bool := c.conditions.isEmpty

def prefixList? (c : Clause) : Option PrefixList := c.conditions.findSome? (·.prefixList?)

def community? (c : Clause) : Option Community := c.conditions.findSome? (·.community?)

def localPref? (c : Clause) : Option Nat := c.actions.findSome? (·.localPref?)

/-- Equal up to the order. -/
def same (c d : Clause) : Bool := c.conditions = d.conditions && c.effect = d.effect

end Clause

namespace RouteMap

def decide (r : Route) : List Clause → Option Route
  | [] => some r
  | c :: rest => if c.applies r then c.effect.apply r else decide r rest

/-- Clauses are tried by ascending order. -/
def apply (clauses : List Clause) (r : Route) : Option Route :=
  decide r (sortBy (compareOn Clause.order) clauses)

end RouteMap

end PathPolicy
