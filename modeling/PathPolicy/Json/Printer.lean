import PathPolicy.Json.Value

/-! JSON text with every element and member on a line of its own. -/

namespace PathPolicy.Json

/-- Quotes, backslashes and control characters are escaped. -/
def escape (c : Char) : List Char :=
  match c with
  | '"' => ['\\', '"']
  | '\\' => ['\\', '\\']
  | '\x08' => ['\\', 'b']
  | '\x0c' => ['\\', 'f']
  | '\n' => ['\\', 'n']
  | '\r' => ['\\', 'r']
  | '\t' => ['\\', 't']
  | c =>
    if c.toNat < 0x20 then
      ['\\', 'u', '0', '0', Nat.digitChar (c.toNat / 16), Nat.digitChar (c.toNat % 16)]
    else [c]

def quoted (s : String) : String := "\"" ++ String.ofList (s.toList.flatMap escape) ++ "\""

def Number.text : Number → String
  | natural n => toString n
  | decimal significand exponent => toString significand ++ "e" ++ toString exponent

/-- The items of a container between its brackets; `indent` is that of the container. -/
def enclosed (opening closing indent : String) (items : List String) : String :=
  if items.isEmpty then opening ++ closing
  else opening ++ "\n" ++ ",\n".intercalate items ++ "\n" ++ indent ++ closing

mutual

def printAt (indent : String) : Json → String
  | null => "null"
  | bool true => "true"
  | bool false => "false"
  | number n => n.text
  | string s => quoted (s.getD "")
  | array elements => enclosed "[" "]" indent (elementLines (indent ++ "  ") elements)
  | object members => enclosed "\x7b" "\x7d" indent (memberLines (indent ++ "  ") members)

def elementLines (indent : String) : List Json → List String
  | [] => []
  | j :: rest => (indent ++ printAt indent j) :: elementLines indent rest

def memberLines (indent : String) : List (Option String × Json) → List String
  | [] => []
  | (key, j) :: rest =>
    (indent ++ quoted (key.getD "") ++ ": " ++ printAt indent j) :: memberLines indent rest

end

def print (j : Json) : String := printAt "" j

end PathPolicy.Json
