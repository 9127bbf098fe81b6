/-! The routing protocols for which requirements are written. -/

namespace PathPolicy

inductive Protocol
  | bgp
  | ospf
  | static
  deriving DecidableEq, Repr

namespace Protocol

def text : Protocol → String
  | bgp => "BGP"
  | ospf => "OSPF"
  | static => "Static"

def ofLowercase? : String → Option Protocol
  | "bgp" => some bgp
  | "ospf" => some ospf
  | "static" => some static
  | _ => none

/-- Reads a name in any ASCII case, with or without `Protocols.` in front. -/
def ofText? (s : String) : Option Protocol :=
  let cs := s.toList
  let name := ("Protocols.".toList.isPrefixOf? cs).getD cs
  ofLowercase? (String.ofList (name.map Char.toLower))

def unknownMessage (name : String) : String := s!"Unknown protocol: {name}"

def parse (s : String) : Except String Protocol :=
  match ofText? s with
  | some p => .ok p
  | none => .error (unknownMessage s)

theorem parse_eq_ok_iff {s : String} {p : Protocol} : parse s = .ok p ↔ ofText? s = some p := by
  rw [parse]
  split <;> simp_all

def rank : Protocol → Nat
  | bgp => 0
  | ospf => 1
  | static => 2

theorem rank_injective {p q : Protocol} (h : p.rank = q.rank) : p = q := by
  cases p <;> cases q <;> simp_all [rank]

instance : Ord Protocol := ⟨compareOn rank⟩

instance : Std.TransOrd Protocol := inferInstanceAs (Std.TransCmp (compareOn rank))

instance : Std.LawfulEqOrd Protocol where
  eq_of_compare h := rank_injective (Std.LawfulEqOrd.eq_of_compare (α := Nat) h)

end Protocol

end PathPolicy
