import PathPolicy.Requirement.Resolution
import PathPolicy.Requirement.Token
import PathPolicy.Synthesis.Group

/-! Everything that can go wrong between the text of the requirements and the policy model. -/

namespace PathPolicy

inductive Error
  | topology (e : TopologyError)
  | address (e : AddressError)
  | parse (e : ParseError)
  | requirement (e : RequirementError)
  | path (e : PathError)
  | synthesis (e : SynthesisError)
  | conflicts (cs : List Conflict)
  deriving DecidableEq, Repr

namespace Error

def conflictsMessage (cs : List Conflict) : String :=
  let count := cs.length
  let lines := "\n".intercalate (cs.map (·.message))
  s!"{count} conflicts found:\n{lines}"

def message : Error → String
  | topology e => "Topology Error: " ++ e.message
  | address e => "Address Error: " ++ e.message
  | parse e => "Parse Error: " ++ e.message
  | requirement e => e.message
  | path e => "Invalid path: " ++ e.message
  | synthesis e => "Synthesis Error: " ++ e.message
  | conflicts cs => conflictsMessage cs

end Error

end PathPolicy
