import PathPolicy.OrderedMap

/-! Finite sets listed in ascending order. -/

namespace PathPolicy

abbrev OrderedSet (α : Type) [Ord α] := OrderedMap α Unit

namespace OrderedSet

variable {α : Type} [Ord α]

def toList (s : OrderedSet α) : List α := s.keys

variable [Std.LawfulEqOrd α] [Std.TransOrd α]

def add (s : OrderedSet α) (a : α) : OrderedSet α := s.insert a ()

def ofList (xs : List α) : OrderedSet α := xs.foldl add OrderedMap.empty

end OrderedSet

end PathPolicy
