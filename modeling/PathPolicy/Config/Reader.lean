import PathPolicy.Config.Statement
import PathPolicy.OrderedSet

/-! Reading configuration texts back. Lines that say nothing about route maps, prefix lists and BGP
are passed over. -/

namespace PathPolicy

inductive ReadError
  | outsideDevice (line : Nat)
  | invalidRouteMapName (line : Nat) (name : String)
  | invalidNumber (line : Nat) (text : String)
  | outsideClause (line : Nat)
  | invalidAddress (line : Nat) (text : String)
  deriving DecidableEq, Repr

namespace ReadError

def message : ReadError → String
  | outsideDevice line => s!"Line {line}: statement outside of any device configuration"
  | invalidRouteMapName line name => s!"Line {line}: invalid route-map name: {name}"
  | invalidNumber line text => s!"Line {line}: invalid number: {text}"
  | outsideClause line => s!"Line {line}: statement outside of a route-map clause"
  | invalidAddress line text => s!"Line {line}: invalid address: {text}"

end ReadError

structure ParsedClause where
  node : String
  neighbor : String
  direction : Direction
  verdict : Verdict
  seq : Nat
  conditions : List (String × String)
  actions : List (String × String)
  deriving DecidableEq, Repr

namespace ParsedClause

/-- A clause that lets every route pass unchanged. -/
def isPlaceholder (c : ParsedClause) : Bool :=
  c.verdict = .permit && c.conditions.isEmpty && c.actions.isEmpty

end ParsedClause

structure ParsedNeighbor where
  node : String
  ip : String
  remoteAs : Option Nat
  description : Option String
  routeMapIn : Option String
  routeMapOut : Option String
  sendCommunity : Bool
  deriving DecidableEq, Repr

structure ParsedBgp where
  node : String
  asn : Nat
  routerId : Option Ipv4
  networks : List Address
  deriving DecidableEq, Repr

structure ParsedPrefixList where
  node : String
  name : String
  network : Address
  deriving DecidableEq, Repr

structure ParsedConfig where
  devices : List String
  clauses : List ParsedClause
  neighbors : List ParsedNeighbor
  bgp : List ParsedBgp
  prefixLists : List ParsedPrefixList
  deriving DecidableEq, Repr

/-- What a route map does with the routes of a neighbor. -/
structure PolicyAction where
  node : String
  neighbor : String
  direction : Direction
  verdict : Verdict
  deriving DecidableEq, Repr

namespace PolicyAction

instance : Ord PolicyAction :=
  ⟨compareLex (compareOn node) <| compareLex (compareOn neighbor) <|
    compareLex (compareOn direction) (compareOn verdict)⟩

instance : Std.TransOrd PolicyAction :=
  inferInstanceAs (Std.TransCmp <| compareLex (compareOn node) <|
    compareLex (compareOn neighbor) <| compareLex (compareOn direction) (compareOn verdict))

instance : Std.LawfulEqOrd PolicyAction where
  eq_of_compare {a b} h := by
    obtain ⟨h₁, h⟩ := compareLex_eq_eq.mp h
    obtain ⟨h₂, h⟩ := compareLex_eq_eq.mp h
    obtain ⟨h₃, h₄⟩ := compareLex_eq_eq.mp h
    cases a; cases b
    obtain rfl := Std.LawfulEqOrd.eq_of_compare h₁
    obtain rfl := Std.LawfulEqOrd.eq_of_compare h₂
    obtain rfl := Std.LawfulEqOrd.eq_of_compare h₃
    obtain rfl := Std.LawfulEqOrd.eq_of_compare h₄
    rfl

end PolicyAction

namespace ParsedConfig

def empty : ParsedConfig := ⟨[], [], [], [], []⟩

/-- The actions of all clauses but placeholders. -/
def actions (c : ParsedConfig) : OrderedSet PolicyAction :=
  .ofList ((c.clauses.filter (!·.isPlaceholder)).map fun k =>
    ⟨k.node, k.neighbor, k.direction, k.verdict⟩)

def neighbor? (c : ParsedConfig) (node ip : String) : Option ParsedNeighbor :=
  c.neighbors.find? fun n => n.node = node && n.ip = ip

def bgp? (c : ParsedConfig) (node : String) : Option ParsedBgp := c.bgp.find? (·.node = node)

end ParsedConfig

/-- The state between two lines. All lists of the configuration are in reverse. -/
structure ConfigReader where
  config : ParsedConfig
  device : Option String
  inClause : Bool
  inBgp : Bool
  deriving DecidableEq, Repr

namespace ConfigReader

def start : ConfigReader := ⟨.empty, none, false, false⟩

/-- Splits what follows the name of the router in the name of a route map. -/
def splitRouteMapName? (node : String) (name : List Char) : Option (String × Direction) := do
  let rest ← Statement.after? "_" (← Statement.after? node name)
  match Statement.after? "from_" rest, Statement.after? "to_" rest with
  | some neighbor, _ => some (String.ofList neighbor, .incoming)
  | none, some neighbor => some (String.ofList neighbor, .outgoing)
  | none, none => none

def ip (line : Nat) (cs : List Char) : Except ReadError Ipv4 :=
  match Ipv4.ofChars? cs with
  | some ip => .ok ip
  | none => .error (.invalidAddress line (String.ofList cs))

def number (limit line : Nat) (cs : List Char) : Except ReadError Nat :=
  match Text.unsigned? limit cs with
  | some n => .ok n
  | none => .error (.invalidNumber line (String.ofList cs))

def address (line : Nat) (cs : List Char) : Except ReadError Address :=
  match Address.parse (String.ofList cs) with
  | .ok a => .ok a
  | .error _ => .error (.invalidAddress line (String.ofList cs))

def mapHead {α : Type} (f : α → α) : List α → List α
  | [] => []
  | a :: rest => f a :: rest

def withClause (s : ConfigReader) (line : Nat) (f : ParsedClause → ParsedClause) :
    Except ReadError ConfigReader :=
  if s.inClause then .ok { s with config.clauses := mapHead f s.config.clauses }
  else .error (.outsideClause line)

def withBgp (s : ConfigReader) (f : ParsedBgp → ParsedBgp) : ConfigReader :=
  { s with config.bgp := mapHead f s.config.bgp }

/-- Opens a session at the first line about it. -/
def openNeighbor (s : ConfigReader) (node ip : String) : ConfigReader :=
  match s.config.neighbor? node ip with
  | some _ => s
  | none => { s with
      config.neighbors := ⟨node, ip, none, none, none, none, false⟩ :: s.config.neighbors }

def updateNeighbor (s : ConfigReader) (node ip : String) (f : ParsedNeighbor → ParsedNeighbor) :
    ConfigReader :=
  { s with config.neighbors :=
      s.config.neighbors.map fun n => if n.node = node && n.ip = ip then f n else n }

def unquote (cs : List Char) : List Char :=
  ((cs.dropWhile (· = '"')).reverse.dropWhile (· = '"')).reverse

def setRouteMap (argument : List Char) (n : ParsedNeighbor) : ParsedNeighbor :=
  match Statement.routeMapUse? argument with
  | some (name, .incoming) => { n with routeMapIn := some (String.ofList name) }
  | some (name, .outgoing) => { n with routeMapOut := some (String.ofList name) }
  | none => n

def neighborChange (line : Nat) (keyword : NeighborKeyword) (argument : List Char) :
    Except ReadError (ParsedNeighbor → ParsedNeighbor) :=
  match keyword with
  | .remoteAs => do
    let asn ← number Text.limit32 line argument
    return fun n => { n with remoteAs := some asn }
  | .description =>
    .ok fun n => { n with description := some (String.ofList (unquote argument)) }
  | .routeMap => .ok (setRouteMap argument)
  | .sendCommunity => .ok fun n => { n with sendCommunity := true }

def enterDevice (s : ConfigReader) (name : List Char) : ConfigReader :=
  let name := String.ofList name
  { config := { s.config with devices := name :: s.config.devices }
    device := some name
    inClause := false
    inBgp := false }

/-- Takes in a statement about the device `node`. -/
def accept (s : ConfigReader) (line : Nat) (node : String) :
    Statement → Except ReadError ConfigReader
  | .device name => .ok (s.enterDevice name)
  | .routeMap name verdict seq => do
    match splitRouteMapName? node name with
    | none => throw (.invalidRouteMapName line (String.ofList name))
    | some (neighbor, direction) =>
      let seq ← number Text.limit64 line seq
      let clause : ParsedClause := ⟨node, neighbor, direction, verdict, seq, [], []⟩
      return { s with config.clauses := clause :: s.config.clauses, inClause := true }
  | .condition keyword value =>
    s.withClause line fun c => { c with
      conditions := c.conditions ++ [(String.ofList keyword, String.ofList value)] }
  | .action keyword value =>
    s.withClause line fun c => { c with
      actions := c.actions ++ [(String.ofList keyword, String.ofList value)] }
  | .prefixList name network => do
    let network ← address line network
    let entry : ParsedPrefixList := ⟨node, String.ofList name, network⟩
    return { s with config.prefixLists := entry :: s.config.prefixLists }
  | .bgp asn => do
    let asn ← number Text.limit32 line asn
    return { s with config.bgp := ⟨node, asn, none, []⟩ :: s.config.bgp, inBgp := true }
  | .routerId id => do
    if !s.inBgp then return s
    let id ← ip line id
    return s.withBgp fun b => { b with routerId := some id }
  | .network address mask => do
    if !s.inBgp then return s
    let address ← ip line address
    let mask ← ip line mask
    return s.withBgp fun b => { b with
      networks := b.networks ++ [Address.clamped address mask.weight] }
  | .neighbor ip keyword argument => do
    let ip := String.ofList ip
    let change ← neighborChange line keyword argument
    return (s.openNeighbor node ip).updateNeighbor node ip change

/-- Clauses and BGP processes end at a line that is not indented, or that is a stanza end. -/
def endsStanza (line : List Char) : Bool := Text.trim line = ['!'] || line.head? ≠ some ' '

def leaveStanza (s : ConfigReader) (line : List Char) : ConfigReader :=
  if endsStanza line then { s with inClause := false, inBgp := false } else s

def readLine (s : ConfigReader) (n : Nat) (line : List Char) : Except ReadError ConfigReader :=
  match Statement.ofLine? line, s.device with
  | some (.device name), _ => .ok (s.enterDevice name)
  | statement, device =>
    if (Text.trim line).isEmpty then .ok s
    else match device, statement with
      | none, _ => .error (.outsideDevice n)
      | some node, some statement => (s.leaveStanza line).accept n node statement
      | some _, none => .ok (s.leaveStanza line)

/-- Reads lines that are numbered from `n`. -/
def readLines (s : ConfigReader) (n : Nat) : List (List Char) → Except ReadError ConfigReader
  | [] => .ok s
  | line :: rest =>
    match s.readLine n line with
    | .error e => .error e
    | .ok s => s.readLines (n + 1) rest

def result (s : ConfigReader) : ParsedConfig where
  devices := s.config.devices.reverse
  clauses := s.config.clauses.reverse
  neighbors := s.config.neighbors.reverse
  bgp := s.config.bgp.reverse
  prefixLists := s.config.prefixLists.reverse

end ConfigReader

namespace ParsedConfig

def read (text : String) : Except ReadError ParsedConfig :=
  (ConfigReader.start.readLines 1 (Text.lines text.toList)).map (·.result)

end ParsedConfig

end PathPolicy
