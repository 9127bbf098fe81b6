import PathPolicy.RouteMap
import PathPolicy.Text.Characters
import PathPolicy.Text.Field

/-! The lines of a configuration text that say something about devices, route maps, prefix lists
and BGP. Their arguments are kept as text. -/

namespace PathPolicy

inductive NeighborKeyword
  | remoteAs
  | description
  | routeMap
  | sendCommunity
  deriving DecidableEq, Repr

namespace NeighborKeyword

def text : NeighborKeyword → String
  | remoteAs => "remote-as"
  | description => "description"
  | routeMap => "route-map"
  | sendCommunity => "send-community"

def all : List NeighborKeyword := [remoteAs, description, routeMap, sendCommunity]

end NeighborKeyword

inductive Statement
  | device (name : List Char)
  | routeMap (name : List Char) (verdict : Verdict) (seq : List Char)
  | condition (keyword value : List Char)
  | action (keyword value : List Char)
  | prefixList (name network : List Char)
  | bgp (asn : List Char)
  | routerId (ip : List Char)
  | network (ip mask : List Char)
  | neighbor (ip : List Char) (keyword : NeighborKeyword) (argument : List Char)
  deriving DecidableEq, Repr

namespace Statement

def after? (text : String) (cs : List Char) : Option (List Char) := text.toList.isPrefixOf? cs

def before? (text : String) (cs : List Char) : Option (List Char) := text.toList.isSuffixOf? cs

def nonempty? (cs : List Char) : Option (List Char) := if cs.isEmpty then none else some cs

/-- The characters up to the first blank, of which there is at least one. -/
def word? (cs : List Char) : Option (List Char × List Char) :=
  match cs.span (!Text.isBlank ·) with
  | ([], _) => none
  | (word, rest) => some (word, rest)

/-- A text that is one word. -/
def wholeWord? (cs : List Char) : Option (List Char) :=
  if cs.all (!Text.isBlank ·) then nonempty? cs else none

def digits? (cs : List Char) : Option (List Char) :=
  if cs.all Text.isDecimalDigit then nonempty? cs else none

/-- The text after the last space, and the text before it. -/
def splitLastSpace? (cs : List Char) : Option (List Char × List Char) :=
  match Text.splitFirst ' ' cs.reverse with
  | (_, none) => none
  | (last, some rest) => some (rest.reverse, last.reverse)

def device? (line : List Char) : Option Statement := do
  let rest ← after? "Configuration of " line
  let name ← nonempty? (← before? ":" rest)
  return device name

def verdict? (cs : List Char) : Option (List Char × Verdict) :=
  match before? " permit" cs, before? " deny" cs with
  | some name, _ => some (name, .permit)
  | none, some name => some (name, .deny)
  | none, none => none

def routeMap? (line : List Char) : Option Statement := do
  let rest ← after? "route-map RMap_" line
  let (front, last) ← splitLastSpace? rest
  let seq ← digits? last
  let (name, verdict) ← verdict? front
  return routeMap (← nonempty? name) verdict seq

/-- A word, a space and a value that is not empty. -/
def keywordValue? (cs : List Char) : Option (List Char × List Char) := do
  let (keyword, rest) ← word? cs
  return (keyword, ← nonempty? (← after? " " rest))

/-- The only keyword of several words is `ip address prefix-list`. -/
def prefixListValue? (cs : List Char) : Option (List Char × List Char) := do
  let value ← nonempty? (← after? "ip address prefix-list " cs)
  return ("ip address prefix-list".toList, value)

def condition? (line : List Char) : Option Statement := do
  let rest ← after? " match " line
  let (keyword, value) ← prefixListValue? rest <|> keywordValue? rest
  return condition keyword value

def action? (line : List Char) : Option Statement := do
  let (keyword, value) ← keywordValue? (← after? " set " line)
  return action keyword value

def prefixList? (line : List Char) : Option Statement := do
  let (name, rest) ← word? (← after? "ip prefix-list " line)
  let (seq, rest) ← word? (← after? " seq " rest)
  let _ ← digits? seq
  return prefixList name (← wholeWord? (← after? " permit " rest))

def bgp? (line : List Char) : Option Statement := do
  return bgp (← digits? (← after? "router bgp " line))

def routerId? (line : List Char) : Option Statement := do
  return routerId (← wholeWord? (← after? " bgp router-id " line))

def network? (line : List Char) : Option Statement := do
  let (ip, rest) ← word? (← after? " network " line)
  return network ip (← wholeWord? (← after? " mask " rest))

def neighbor? (line : List Char) : Option Statement := do
  let (ip, rest) ← word? (← after? " neighbor " line)
  let rest ← after? " " rest
  NeighborKeyword.all.findSome? fun keyword =>
    (after? keyword.text rest).map fun argument => neighbor ip keyword (Text.trim argument)

/-- At most one of the forms fits a line, since they begin differently. -/
def ofLine? (line : List Char) : Option Statement :=
  device? line <|> routeMap? line <|> condition? line <|> action? line <|> prefixList? line <|>
    bgp? line <|> routerId? line <|> network? line <|> neighbor? line

/-- A route map with the direction in which a session uses it. -/
def routeMapUse? (cs : List Char) : Option (List Char × Direction) :=
  match (before? " in" cs).bind nonempty?, (before? " out" cs).bind nonempty? with
  | some name, _ => some (name, .incoming)
  | none, some name => some (name, .outgoing)
  | none, none => none

end Statement

end PathPolicy
