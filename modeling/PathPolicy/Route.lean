import PathPolicy.Community
import PathPolicy.OrderedSet
import PathPolicy.Topology

/-! BGP routes as they are sent over sessions. -/

namespace PathPolicy

structure Route where
  network : Address
  /-- From the router that sent the route to the one that announced it. -/
  path : List RouterId
  communities : OrderedSet Community
  localPref : Nat
  sender : RouterId
  deriving DecidableEq

namespace Route

def defaultLocalPref : Nat := 100

def addCommunity (c : Community) (r : Route) : Route :=
  { r with communities := OrderedSet.add r.communities c }

def replaceCommunities (c : Community) (r : Route) : Route :=
  { r with communities := OrderedSet.add .empty c }

def withLocalPref (localPref : Nat) (r : Route) : Route := { r with localPref }

end Route

end PathPolicy
