import PathPolicy.Json.Number

/-! JSON values. An object lists its members as written, so a key may come twice. -/

namespace PathPolicy

/-- A string literal whose escapes leave half of a surrogate pair has no text. -/
inductive Json
  | null
  | bool (b : Bool)
  | number (n : Json.Number)
  | string (text : Option String)
  | array (elements : List Json)
  | object (members : List (Option String × Json))

namespace Json

def text (s : String) : Json := string (some s)

def natural (n : Nat) : Json := number (.natural n)

def record (members : List (String × Json)) : Json :=
  object (members.map fun m => (some m.1, m.2))

def ofOption {α : Type} (f : α → Json) : Option α → Json
  | some a => f a
  | none => null

def ofList {α : Type} (f : α → Json) (xs : List α) : Json := array (xs.map f)

mutual

/-- Every literal has a value, every number fits, and containers nest at most `depth` deep. -/
def isStrict (depth : Nat) : Json → Bool
  | null => true
  | bool _ => true
  | number n => n.isFinite
  | string s => s.isSome
  | array elements => match depth with
    | 0 => false
    | depth + 1 => elementsStrict depth elements
  | object members => match depth with
    | 0 => false
    | depth + 1 => membersStrict depth members

def elementsStrict (depth : Nat) : List Json → Bool
  | [] => true
  | j :: rest => isStrict depth j && elementsStrict depth rest

def membersStrict (depth : Nat) : List (Option String × Json) → Bool
  | [] => true
  | (key, j) :: rest => key.isSome && isStrict depth j && membersStrict depth rest

end

end Json

end PathPolicy
