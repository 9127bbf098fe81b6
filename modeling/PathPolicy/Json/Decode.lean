import PathPolicy.Json.Value
import PathPolicy.Text.Field

/-! Reading typed values out of JSON values. Unknown members of an object are ignored, and a
known one must not come twice. -/

namespace PathPolicy.Json

variable {α β : Type}

def text? : Json → Option String
  | string s => s
  | _ => none

def bool? : Json → Option Bool
  | bool b => some b
  | _ => none

def natural? (limit : Nat) : Json → Option Nat
  | number (.natural n) => if n < limit then some n else none
  | _ => none

def nat32? : Json → Option Nat := natural? Text.limit32

def nat64? : Json → Option Nat := natural? Text.limit64

def list? (item : Json → Option α) : Json → Option (List α)
  | array elements => elements.mapM item
  | _ => none

def pair? (left : Json → Option α) (right : Json → Option β) : Json → Option (α × β)
  | array [x, y] => do return (← left x, ← right y)
  | _ => none

/-- A `null` stands for no value. -/
def nullable? (item : Json → Option α) : Json → Option (Option α)
  | null => some none
  | j => (item j).map some

def hasName (names : List String) (member : Option String × Json) : Bool :=
  match member.1 with
  | some key => names.contains key
  | none => false

/-- The value of the one member that has one of the names. -/
def member? (members : List (Option String × Json)) (names : List String) :
    Option (Option Json) :=
  match members.filter (hasName names) with
  | [] => some none
  | [m] => some (some m.2)
  | _ => none

/-- The values of the fields of an object; each field has one or more names. -/
def fieldsOfObject? (fields : List (List String)) : Json → Option (List (Option Json))
  | object members =>
    if members.all (·.1.isSome) then fields.mapM (member? members) else none
  | _ => none

/-- A record may also be written as the list of its fields, of which the first `required` must be
there. -/
def fields? (required : Nat) (fields : List String) : Json → Option (List (Option Json))
  | array elements =>
    if required ≤ elements.length && elements.length ≤ fields.length then
      some (elements.map some ++ List.replicate (fields.length - elements.length) none)
    else none
  | j => fieldsOfObject? (fields.map ([·])) j

/-- A field that must be present. -/
def required? (item : Json → Option α) : Option Json → Option α
  | some j => item j
  | none => none

/-- A field that may be absent, or `null`. -/
def optional? (item : Json → Option α) : Option Json → Option (Option α)
  | some j => nullable? item j
  | none => some none

/-- A field that may be absent, but not `null`. -/
def withDefault? (default : α) (item : Json → Option α) : Option Json → Option α
  | some j => item j
  | none => some default

/-- An alternative is written as its name, or as an object whose only key is its name. -/
def alternative? : Json → Option (String × Option Json)
  | string (some name) => some (name, none)
  | object [(some name, j)] => some (name, some j)
  | _ => none

/-- An alternative without contents, also written with the contents `null`. -/
def bareAlternative? (ofName : String → Option α) (j : Json) : Option α :=
  match alternative? j with
  | some (name, none) => ofName name
  | some (name, some null) => ofName name
  | _ => none

end PathPolicy.Json
