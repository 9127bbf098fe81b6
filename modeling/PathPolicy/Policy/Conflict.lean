import PathPolicy.Requirement

/-! Requirements that cannot be satisfied together. -/

namespace PathPolicy

inductive ConflictReason
  | permitAndDeny
  | valueMismatch (existing requested : Nat)
  /-- The most preferred next hops of one requirement form a loop. -/
  | forwardingLoop
  /-- The permitted next hops admit a path that is no member. -/
  | splicedPath (path : List String)
  deriving DecidableEq, Repr

namespace ConflictReason

def message : ConflictReason → String
  | permitAndDeny => "permit and deny on the same neighbor"
  | valueMismatch existing requested =>
    s!"value {requested} requested, but {existing} is already set"
  | forwardingLoop => "equally preferred next hops form a loop"
  | splicedPath path =>
    let route := " -> ".intercalate path
    s!"the permitted next hops admit the path {route}"

end ConflictReason

structure Conflict where
  node : String
  neighbor : String
  requirement : RequirementRef
  /-- The requirement that was there first. -/
  other : Option RequirementRef
  reason : ConflictReason
  deriving DecidableEq, Repr

namespace Conflict

def otherText : Option RequirementRef → String
  | some r =>
    let reference := r.text
    s!" (conflicts with {reference})"
  | none => ""

def message (c : Conflict) : String :=
  let reference := c.requirement.text
  let node := c.node
  let neighbor := c.neighbor
  let reason := c.reason.message
  let other := otherText c.other
  s!"Conflicting requirement {reference} at {node} toward {neighbor}: {reason}{other}"

end Conflict

end PathPolicy
