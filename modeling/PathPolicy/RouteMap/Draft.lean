import PathPolicy.RouteMap

/-! Clauses written step by step. -/

namespace PathPolicy

structure ClauseDraft where
  order : Option Nat
  verdict : Option Verdict
  conditions : List Condition
  actions : List SetAction
  deriving DecidableEq, Repr

namespace ClauseDraft

def empty : ClauseDraft := ⟨none, none, [], []⟩

def withOrder (order : Nat) (d : ClauseDraft) : ClauseDraft := { d with order := some order }

def withVerdict (verdict : Verdict) (d : ClauseDraft) : ClauseDraft :=
  { d with verdict := some verdict }

def withCondition (c : Condition) (d : ClauseDraft) : ClauseDraft :=
  { d with conditions := d.conditions ++ [c] }

def withAction (a : SetAction) (d : ClauseDraft) : ClauseDraft :=
  { d with actions := d.actions ++ [a] }

def defaultOrder : Nat := 10

/-- A draft without a verdict is no clause. -/
def build? (d : ClauseDraft) : Option Clause :=
  d.verdict.map fun verdict => {
    order := d.order.getD defaultOrder
    conditions := d.conditions
    effect := match verdict with
      | .permit => .permit d.actions
      | .deny => .deny }

end ClauseDraft

end PathPolicy
