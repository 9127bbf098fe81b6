/-! BGP communities, written `asn:value`. -/

namespace PathPolicy

structure Community where
  asn : Nat
  value : Nat
  deriving DecidableEq, Repr

namespace Community

def text (c : Community) : String :=
  let asn := c.asn
  let value := c.value
  s!"{asn}:{value}"

/-- Name of the standard community list that matches this community only. -/
def listName (c : Community) : String :=
  let asn := c.asn
  let value := c.value
  s!"CL_{asn}_{value}"

instance : Ord Community := ⟨compareLex (compareOn asn) (compareOn value)⟩

instance : Std.TransOrd Community :=
  inferInstanceAs (Std.TransCmp (compareLex (compareOn asn) (compareOn value)))

instance : Std.LawfulEqOrd Community where
  eq_of_compare {a b} h := by
    obtain ⟨h₁, h₂⟩ := compareLex_eq_eq.mp h
    cases a; cases b
    exact congr (congrArg mk (Std.LawfulEqOrd.eq_of_compare h₁)) (Std.LawfulEqOrd.eq_of_compare h₂)

end Community

end PathPolicy
