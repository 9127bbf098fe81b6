import PathPolicy.OrderedMap
import PathPolicy.Topology

/-! The next hops of all routers toward one destination, and the routes that they make up. -/

namespace PathPolicy

inductive ForwardingError
  /-- The last router of the path is on it twice. -/
  | loop (path : List RouterId)
  /-- The last router of the path has no next hop. -/
  | blackHole (path : List RouterId)
  | noConvergence
  deriving DecidableEq, Repr

namespace ForwardingError

def idsText (path : List RouterId) : String :=
  let inner := ", ".intercalate (path.map fun r => s!"NodeIndex({r})")
  s!"[{inner}]"

def message : ForwardingError → String
  | loop path =>
    let ids := idsText path
    s!"Forwarding loop: {ids}"
  | blackHole path =>
    let ids := idsText path
    s!"Black hole: {ids}"
  | noConvergence => "BGP did not converge"

end ForwardingError

structure ForwardingState where
  destination : RouterId
  /-- The first next hop is the primary one. -/
  hops : OrderedMap RouterId (List RouterId)

namespace ForwardingState

def ofHops (destination : RouterId) (hops : List (RouterId × List RouterId)) :
    ForwardingState :=
  ⟨destination, .ofList hops⟩

def nextHops (s : ForwardingState) (a : RouterId) : List RouterId := (s.hops.get? a).getD []

/-- Follows primary next hops from the last router of `path`. The routers that were not left yet
are `fresh`. -/
def follow (s : ForwardingState) (fresh path : List RouterId) (current : RouterId) :
    Except ForwardingError (List RouterId) :=
  if current = s.destination then .ok path
  else if _h : current ∈ fresh then
    match s.nextHops current with
    | [] => .error (.blackHole path)
    | next :: _ =>
      if next ∈ path then .error (.loop (path ++ [next]))
      else s.follow (fresh.erase current) (path ++ [next]) next
  else .error (.blackHole path)
termination_by fresh.length
decreasing_by
  have := List.length_pos_of_mem _h
  rw [List.length_erase_of_mem _h]
  omega

def route (s : ForwardingState) (source : RouterId) : Except ForwardingError (List RouterId) :=
  s.follow s.hops.keys [source] source

end ForwardingState

end PathPolicy
