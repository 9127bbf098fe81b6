import PathPolicy.Address
import PathPolicy.Sorting

/-! Routers and the links between them. Names are unique, a link joins two different routers, and
two routers share at most one link. Routers are numbered in the order in which they were added.

There is one list of routers and one of links, and nothing is stored twice. An index from names to
numbers is the search `routerId?` in the list of routers, and the edge between two routers is the
search `link?` in the list of links, each of which knows the numbers of its own ends. So an index
cannot disagree with the routers, or an edge with the ends of its link. -/

namespace PathPolicy

abbrev RouterId := Nat

/-- Only routers with an AS number speak BGP. -/
structure Router where
  name : String
  asn : Option Nat
  loopbacks : List Address
  deriving DecidableEq, Repr

structure Interface where
  router : RouterId
  name : String
  address : Address
  deriving DecidableEq, Repr

structure Link where
  first : Interface
  second : Interface
  deriving DecidableEq, Repr

namespace Link

def endpoint? (l : Link) (r : RouterId) : Option Interface :=
  if l.first.router = r then some l.first
  else if l.second.router = r then some l.second
  else none

def opposite? (l : Link) (r : RouterId) : Option Interface :=
  if l.first.router = r then some l.second
  else if l.second.router = r then some l.first
  else none

def joins (l : Link) (a b : RouterId) : Bool :=
  (l.first.router = a && l.second.router = b) || (l.first.router = b && l.second.router = a)

def sameData (l m : Link) : Bool :=
  l = m || (l.first = m.second && l.second = m.first)

end Link

/-- One side of a link, given by the name of its router. -/
structure Endpoint where
  node : String
  interface : String
  address : Address
  deriving DecidableEq, Repr

inductive TopologyError
  | unknownNode (name : String)
  | duplicateNode (name : String)
  | duplicateEdge (first second : String)
  | selfLoop (name : String)
  deriving DecidableEq, Repr

namespace TopologyError

def message : TopologyError → String
  | unknownNode name => s!"Unknown node: {name}"
  | duplicateNode name => s!"Node {name} is defined twice"
  | duplicateEdge a b => s!"Duplicate edge between {a} and {b} with conflicting interfaces"
  | selfLoop name => s!"Self loop at node {name}"

end TopologyError

structure Topology where
  routers : List Router
  links : List Link
  names_nodup : (routers.map (·.name)).Nodup
  links_join : ∀ l ∈ links, l.first.router < routers.length ∧ l.second.router < routers.length ∧
    l.first.router ≠ l.second.router
  links_simple : links.Pairwise fun l m => m.joins l.first.router l.second.router = false

namespace Topology

def empty : Topology := ⟨[], [], .nil, by simp, .nil⟩

instance : Inhabited Topology := ⟨empty⟩

def size (t : Topology) : Nat := t.routers.length

def routerId? (t : Topology) (name : String) : Option RouterId :=
  t.routers.findIdx? (·.name = name)

def router? (t : Topology) (r : RouterId) : Option Router := t.routers[r]?

/-- A router that does not exist is called `?`. -/
def name (t : Topology) (r : RouterId) : String := ((t.router? r).map (·.name)).getD "?"

def names (t : Topology) (path : List RouterId) : List String := path.map t.name

def asn? (t : Topology) (r : RouterId) : Option Nat := (t.router? r).bind (·.asn)

def link? (t : Topology) (a b : RouterId) : Option Link := t.links.find? (·.joins a b)

def interface? (t : Topology) (r neighbor : RouterId) : Option Interface :=
  (t.link? r neighbor).bind (·.endpoint? r)

def adjacent (t : Topology) (a b : RouterId) : Bool := (t.link? a b).isSome

def sortedByName (t : Topology) (rs : List RouterId) : List RouterId :=
  sortBy (compareOn t.name) rs

def neighborIds (t : Topology) (r : RouterId) : List RouterId :=
  t.links.filterMap fun l => (l.opposite? r).map (·.router)

def neighbors (t : Topology) (r : RouterId) : List RouterId := t.sortedByName (t.neighborIds r)

def degree (t : Topology) (r : RouterId) : Nat := (t.neighborIds r).length

def routersByName (t : Topology) : List RouterId := t.sortedByName (List.range t.size)

theorem routerId?_eq_some {t : Topology} {name : String} {r : RouterId}
    (h : t.routerId? name = some r) : ∃ router, t.router? r = some router ∧ router.name = name := by
  obtain ⟨hlt, hname, _⟩ := List.findIdx?_eq_some_iff_getElem.mp h
  exact ⟨t.routers[r], List.getElem?_eq_getElem hlt, by simpa using hname⟩

theorem lt_size_of_routerId? {t : Topology} {name : String} {r : RouterId}
    (h : t.routerId? name = some r) : r < t.size :=
  (List.findIdx?_eq_some_iff_getElem.mp h).1

theorem name_notMem_of_routerId? {t : Topology} {name : String} (h : t.routerId? name = none) :
    name ∉ t.routers.map (·.name) := by
  intro hmem
  obtain ⟨router, hr, rfl⟩ := List.mem_map.mp hmem
  simpa using List.findIdx?_eq_none_iff.mp h router hr

/-- The new router gets the next number. -/
def addRouter (t : Topology) (router : Router) : Except TopologyError Topology :=
  match h : t.routerId? router.name with
  | some _ => .error (.duplicateNode router.name)
  | none => .ok {
      routers := t.routers ++ [router]
      links := t.links
      names_nodup := by
        rw [List.map_append]
        refine List.nodup_append.mpr ⟨t.names_nodup, by simp, fun x hx y hy hxy => ?_⟩
        subst hxy
        obtain rfl : x = router.name := by simpa using hy
        exact name_notMem_of_routerId? h hx
      links_join := fun l hl => by
        have hjoin := t.links_join l hl
        have hle : t.routers.length ≤ (t.routers ++ [router]).length := by simp
        exact ⟨Nat.lt_of_lt_of_le hjoin.1 hle, Nat.lt_of_lt_of_le hjoin.2.1 hle, hjoin.2.2⟩
      links_simple := t.links_simple }

def lookup (t : Topology) (name : String) : Except TopologyError RouterId :=
  match t.routerId? name with
  | some r => .ok r
  | none => .error (.unknownNode name)

theorem lt_size_of_lookup {t : Topology} {name : String} {r : RouterId}
    (h : t.lookup name = .ok r) : r < t.size := by
  unfold lookup at h
  split at h
  · next hr => cases h; exact lt_size_of_routerId? hr
  · cases h

def insertLink (t : Topology) (l : Link) (hfirst : l.first.router < t.size)
    (hsecond : l.second.router < t.size) (hne : l.first.router ≠ l.second.router)
    (hnew : t.link? l.first.router l.second.router = none) : Topology where
  routers := t.routers
  links := t.links ++ [l]
  names_nodup := t.names_nodup
  links_join m hm := by
    rcases List.mem_append.mp hm with hm | hm
    · exact t.links_join m hm
    · obtain rfl : m = l := by simpa using hm
      exact ⟨hfirst, hsecond, hne⟩
  links_simple := by
    refine List.pairwise_append.mpr ⟨t.links_simple, by simp, fun m hm k hk => ?_⟩
    obtain rfl : k = l := by simpa using hk
    have hjoin := List.find?_eq_none.mp hnew m hm
    simp only [Link.joins, Bool.or_eq_true, Bool.and_eq_true, decide_eq_true_eq] at hjoin
    simp only [Link.joins, Bool.or_eq_false_iff, Bool.and_eq_false_iff, decide_eq_false_iff_not]
    grind

/-- A link that is already there with the same data, in either orientation, is left alone. -/
def addLink (t : Topology) (e f : Endpoint) : Except TopologyError Topology :=
  match ha : t.lookup e.node, hb : t.lookup f.node with
  | .error err, _ => .error err
  | .ok _, .error err => .error err
  | .ok a, .ok b =>
    if hab : a = b then .error (.selfLoop e.node)
    else
      let l : Link := ⟨⟨a, e.interface, e.address⟩, ⟨b, f.interface, f.address⟩⟩
      match hl : t.link? a b with
      | some existing =>
        if existing.sameData l then .ok t else .error (.duplicateEdge e.node f.node)
      | none => .ok (t.insertLink l (lt_size_of_lookup ha) (lt_size_of_lookup hb) hab hl)

/-- The network `10.x.y.0/24` of link number `x.y`. -/
def linkAddress (index host : Nat) : Address :=
  .clamped (.ofOctets 10 (index / 256 % 256) (index % 256) host) 24

/-- Links two routers over the next network, each with its next interface `eth0`, `eth1`, ... -/
def connect (t : Topology) (a b : String) : Except TopologyError Topology :=
  match t.lookup a, t.lookup b with
  | .error err, _ => .error err
  | .ok _, .error err => .error err
  | .ok r, .ok s =>
    let index := t.links.length
    let m := t.degree r
    let n := t.degree s
    t.addLink ⟨a, s!"eth{m}", linkAddress index 1⟩ ⟨b, s!"eth{n}", linkAddress index 2⟩

end Topology

end PathPolicy
