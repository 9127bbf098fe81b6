/-! Pieces of a text between separators, its lines, and the decimal numerals in it. -/

namespace PathPolicy.Text

def fields (sep : Char) : List Char → List (List Char)
  | [] => [[]]
  | c :: rest =>
    if c = sep then [] :: fields sep rest
    else match fields sep rest with
      | f :: fs => (c :: f) :: fs
      | [] => [[c]]

/-- Splits at the first separator. -/
def splitFirst (sep : Char) (cs : List Char) : List Char × Option (List Char) :=
  match cs.span (· ≠ sep) with
  | (before, []) => (before, none)
  | (before, _ :: after) => (before, some after)

def withoutReturn (line : List Char) : List Char :=
  (['\r'].isSuffixOf? line).getD line

/-- A line ends at a line feed, or at a carriage return followed by one. Text after the last line
feed is a line of its own unless it is empty. -/
def linesOf : List (List Char) → List (List Char)
  | [] => []
  | [last] => if last.isEmpty then [] else [last]
  | line :: rest => withoutReturn line :: linesOf rest

def lines (cs : List Char) : List (List Char) := linesOf (fields '\n' cs)

/-- A numeral in ASCII digits. -/
def numeral? (cs : List Char) : Option Nat :=
  if cs.isEmpty || !cs.all Char.isDigit then none
  else some (cs.foldl (fun n c => 10 * n + (c.toNat - '0'.toNat)) 0)

/-- A numeral below `limit`, with any number of leading zeros and at most one plus sign. -/
def unsigned? (limit : Nat) (cs : List Char) : Option Nat :=
  let digits := match cs with
    | '+' :: rest => rest
    | _ => cs
  (numeral? digits).filter (· < limit)

def limit32 : Nat := UInt32.size

def limit64 : Nat := UInt64.size

end PathPolicy.Text
