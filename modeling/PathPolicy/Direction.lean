/-! The side of a session or an interface that a policy applies to. -/

namespace PathPolicy

inductive Direction
  | incoming
  | outgoing
  deriving DecidableEq, Repr

namespace Direction

/-- The word in the name of a route map. -/
def keyword : Direction → String
  | incoming => "from"
  | outgoing => "to"

def text : Direction → String
  | incoming => "in"
  | outgoing => "out"

def rank : Direction → Nat
  | incoming => 0
  | outgoing => 1

theorem rank_injective {d e : Direction} (h : d.rank = e.rank) : d = e := by
  cases d <;> cases e <;> simp_all [rank]

instance : Ord Direction := ⟨compareOn rank⟩

instance : Std.TransOrd Direction := inferInstanceAs (Std.TransCmp (compareOn rank))

instance : Std.LawfulEqOrd Direction where
  eq_of_compare h := rank_injective (Std.LawfulEqOrd.eq_of_compare h)

end Direction

def routeMapName (router neighbor : String) (direction : Direction) : String :=
  let keyword := direction.keyword
  s!"RMap_{router}_{keyword}_{neighbor}"

end PathPolicy
