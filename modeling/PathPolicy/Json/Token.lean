import PathPolicy.Json.Value

/-! The lexical elements of JSON text. -/

namespace PathPolicy.Json

inductive Token
  | openArray
  | closeArray
  | openObject
  | closeObject
  | colon
  | comma
  | null
  | bool (b : Bool)
  | number (n : Number)
  | string (text : Option String)

namespace Token

/-- A piece of a string literal: a character as written or escaped by a letter, or a UTF-16 unit
escaped by its number. -/
inductive Piece
  | char (c : Char)
  | unit (n : Nat)

def isHighSurrogate (n : Nat) : Bool := 0xD800 ≤ n && n < 0xDC00

def isLowSurrogate (n : Nat) : Bool := 0xDC00 ≤ n && n < 0xE000

def charsOf? : List Piece → Option (List Char)
  | [] => some []
  | .char c :: rest => (charsOf? rest).map (c :: ·)
  | .unit n :: .unit m :: rest =>
    if isHighSurrogate n then
      if isLowSurrogate m then
        (charsOf? rest).map (Char.ofNat (0x10000 + (n - 0xD800) * 0x400 + (m - 0xDC00)) :: ·)
      else none
    else if isLowSurrogate n then none
    else (charsOf? (.unit m :: rest)).map (Char.ofNat n :: ·)
  | .unit n :: rest =>
    if isHighSurrogate n || isLowSurrogate n then none
    else (charsOf? rest).map (Char.ofNat n :: ·)

def hexDigit? (c : Char) : Option Nat :=
  if c.isDigit then some (c.toNat - '0'.toNat)
  else if 'a' ≤ c && c ≤ 'f' then some (c.toNat - 'a'.toNat + 10)
  else if 'A' ≤ c && c ≤ 'F' then some (c.toNat - 'A'.toNat + 10)
  else none

def unit? (cs : List Char) : Option Nat :=
  (cs.mapM hexDigit?).map fun ds => ds.foldl (fun n d => 16 * n + d) 0

def escaped? : Char → Option Char
  | '"' => some '"'
  | '\\' => some '\\'
  | '/' => some '/'
  | 'b' => some '\x08'
  | 'f' => some '\x0c'
  | 'n' => some '\n'
  | 'r' => some '\r'
  | 't' => some '\t'
  | _ => none

/-- The pieces up to the closing quote, and the text after it. -/
def pieces? : List Char → Option (List Piece × List Char)
  | [] => none
  | '"' :: rest => some ([], rest)
  | '\\' :: 'u' :: a :: b :: c :: d :: rest => do
    let n ← unit? [a, b, c, d]
    let (ps, after) ← pieces? rest
    return (.unit n :: ps, after)
  | '\\' :: e :: rest => do
    let c ← escaped? e
    let (ps, after) ← pieces? rest
    return (.char c :: ps, after)
  | c :: rest =>
    if c.toNat < 0x20 || c = '\\' then none
    else do
      let (ps, after) ← pieces? rest
      return (.char c :: ps, after)

def digits (cs : List Char) : List Char × List Char := cs.span Char.isDigit

def valueOf (ds : List Char) : Nat := ds.foldl (fun n c => 10 * n + (c.toNat - '0'.toNat)) 0

/-- Digits after a decimal point, if there is one. -/
def fraction? : List Char → Option (List Char × List Char)
  | '.' :: rest =>
    match digits rest with
    | ([], _) => none
    | (ds, after) => some (ds, after)
  | cs => some ([], cs)

def magnitude? (cs : List Char) : Option (Nat × List Char) :=
  match digits cs with
  | ([], _) => none
  | (ds, after) => some (valueOf ds, after)

def signedMagnitude? : List Char → Option (Int × List Char)
  | '+' :: rest => (magnitude? rest).map fun (n, after) => ((n : Int), after)
  | '-' :: rest => (magnitude? rest).map fun (n, after) => (-(n : Int), after)
  | cs => (magnitude? cs).map fun (n, after) => ((n : Int), after)

/-- The exponent after `e` or `E`, if there is one. -/
def exponent? : List Char → Option (Option Int × List Char)
  | 'e' :: rest => (signedMagnitude? rest).map fun (e, after) => (some e, after)
  | 'E' :: rest => (signedMagnitude? rest).map fun (e, after) => (some e, after)
  | cs => some (none, cs)

/-- No digit follows a leading zero. -/
def integer? : List Char → Option (List Char × List Char)
  | '0' :: rest => some (['0'], rest)
  | cs =>
    match digits cs with
    | ([], _) => none
    | (ds, after) => some (ds, after)

/-- Appends digits to a number up to the first one that makes it too large for 64 bits. The digits
from there on come second. -/
def significand (n : Nat) : List Char → Nat × List Char
  | [] => (n, [])
  | c :: rest =>
    let longer := 10 * n + (c.toNat - '0'.toNat)
    if longer < UInt64.size then significand longer rest else (n, c :: rest)

def number? (cs : List Char) : Option (Number × List Char) := do
  let negative := cs.head? = some '-'
  let (whole, afterWhole) ← integer? (if negative then cs.tail else cs)
  let (part, afterPart) ← fraction? afterWhole
  let (exponent, after) ← exponent? afterPart
  let (front, dropped) := significand 0 whole
  let (digits, unused) := significand front part
  let plain := !negative && dropped.isEmpty && part.isEmpty && exponent.isNone
  return (if plain then .natural front
    else .decimal digits (exponent.getD 0 + dropped.length + unused.length - part.length), after)

def isSpace (c : Char) : Bool := c = ' ' || c = '\n' || c = '\t' || c = '\r'

/-- The first token of a text that does not begin with white space. -/
def next? : List Char → Option (Token × List Char)
  | '[' :: rest => some (openArray, rest)
  | ']' :: rest => some (closeArray, rest)
  | '{' :: rest => some (openObject, rest)
  | '}' :: rest => some (closeObject, rest)
  | ':' :: rest => some (colon, rest)
  | ',' :: rest => some (comma, rest)
  | 'n' :: 'u' :: 'l' :: 'l' :: rest => some (null, rest)
  | 't' :: 'r' :: 'u' :: 'e' :: rest => some (bool true, rest)
  | 'f' :: 'a' :: 'l' :: 's' :: 'e' :: rest => some (bool false, rest)
  | '"' :: rest => (pieces? rest).map fun (ps, after) =>
      (string ((charsOf? ps).map String.ofList), after)
  | cs => (number? cs).map fun (n, after) => (number n, after)

/-- All tokens of a text. A token that would take no character ends the reading. -/
def read? (cs : List Char) : Option (List Token) :=
  match cs with
  | [] => some []
  | c :: rest =>
    if isSpace c then read? rest
    else match next? (c :: rest) with
      | none => none
      | some (token, after) =>
        if _h : after.length < (c :: rest).length then (read? after).map (token :: ·) else none
termination_by cs.length
decreasing_by
  · simp
  · exact _h

end Token

end PathPolicy.Json
