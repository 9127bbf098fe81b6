import PathPolicy.Requirement

/-! The part that a node plays in a list of requirements. -/

namespace PathPolicy

inductive Role
  | destination
  | source
  | relay
  | nonInvolved
  deriving DecidableEq, Repr

namespace Role

/-- Of several parts, the first in the order of the constructors counts. -/
def ofNode (requirements : List Requirement) (node : String) : Role :=
  let paths := (requirements.flatMap (·.members)).map (·.path)
  if requirements.any (·.destination = node) then destination
  else if paths.any (·.head? = some node) then source
  else if paths.any (·.contains node) then relay
  else nonInvolved

end Role

end PathPolicy
