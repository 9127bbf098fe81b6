import PathPolicy.Text.Characters
import PathPolicy.Text.Field

/-! IPv4 addresses, and interface addresses: an IPv4 address with the length of the network part,
written `10.0.1.1/24`. -/

namespace PathPolicy

abbrev Ipv4 := BitVec 32

namespace Ipv4

def ofOctets (a b c d : Nat) : Ipv4 :=
  BitVec.ofNat 32 (((a * 256 + b) * 256 + c) * 256 + d)

def octet (ip : Ipv4) (shift : Nat) : Nat := (ip.extractLsb' shift 8).toNat

def text (ip : Ipv4) : String :=
  let a := ip.octet 24
  let b := ip.octet 16
  let c := ip.octet 8
  let d := ip.octet 0
  s!"{a}.{b}.{c}.{d}"

/-- One to three digits, at most 255, and no leading zero. -/
def octet? (cs : List Char) : Option Nat :=
  if 3 < cs.length || (cs.head? = some '0' && 1 < cs.length) then none
  else (Text.numeral? cs).filter (· ≤ 255)

def ofChars? (cs : List Char) : Option Ipv4 :=
  match (Text.fields '.' cs).mapM octet? with
  | some [a, b, c, d] => some (ofOctets a b c d)
  | _ => none

def ofText? (s : String) : Option Ipv4 := ofChars? s.toList

/-- The number of one bits. -/
def weight (ip : Ipv4) : Nat := (List.range 32).countP fun i => ip.getLsbD i

end Ipv4

inductive AddressError
  | invalidAddress (text : String)
  | invalidLength (text : String)
  deriving DecidableEq, Repr

namespace AddressError

def message : AddressError → String
  | invalidAddress text => s!"Invalid IPv4 address: {text}"
  | invalidLength text => s!"Invalid prefix length: {text}"

end AddressError

structure Address where
  ip : Ipv4
  length : Fin 33
  deriving DecidableEq, Repr

namespace Address

/-- Lengths above 32 count as 32. -/
def clamped (ip : Ipv4) (length : Nat) : Address := ⟨ip, ⟨min length 32, by omega⟩⟩

def host (ip : Ipv4) : Address := ⟨ip, 32⟩

def mask (a : Address) : Ipv4 := BitVec.allOnes 32 <<< (32 - a.length.val)

def wildcard (a : Address) : Ipv4 := ~~~a.mask

def network (a : Address) : Address := ⟨a.ip &&& a.mask, a.length⟩

/-- Compares under the mask of the first address. -/
def sameNetwork (a b : Address) : Bool := a.ip &&& a.mask = b.ip &&& a.mask

def text (a : Address) : String :=
  let ip := a.ip.text
  let length := a.length.val
  s!"{ip}/{length}"

def length? (cs : List Char) : Option (Fin 33) :=
  match Text.unsigned? Text.limit32 cs with
  | some n => if h : n < 33 then some ⟨n, h⟩ else none
  | none => none

/-- Reads `a.b.c.d/length`, or `a.b.c.d` for a host address, with white space around it. -/
def parse (s : String) : Except AddressError Address :=
  let (before, after) := Text.splitFirst '/' (Text.trim s.toList)
  match Ipv4.ofChars? before, after with
  | none, _ => .error (.invalidAddress (String.ofList before))
  | some ip, none => .ok (host ip)
  | some ip, some cs =>
    match length? cs with
    | some length => .ok ⟨ip, length⟩
    | none => .error (.invalidLength (String.ofList cs))

instance : Ord Address := ⟨compareLex (compareOn ip) (compareOn length)⟩

instance : Std.TransOrd Address :=
  inferInstanceAs (Std.TransCmp (compareLex (compareOn ip) (compareOn length)))

instance : Std.LawfulEqOrd Address where
  eq_of_compare {a b} h := by
    obtain ⟨h₁, h₂⟩ := compareLex_eq_eq.mp h
    cases a; cases b
    exact congr (congrArg mk (Std.LawfulEqOrd.eq_of_compare h₁)) (Std.LawfulEqOrd.eq_of_compare h₂)

end Address

end PathPolicy
