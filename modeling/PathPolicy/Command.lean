import PathPolicy.Network.Diamond
import PathPolicy.Network.Velenj
import PathPolicy.Synthesis.Run
import PathPolicy.Text.Field

/-! What the command line asks for. -/

namespace PathPolicy

/-- Where the topology and the requirements come from. -/
inductive Input
  | files (topology requirements : String)
  | network (topology : Topology) (requirements : List Requirement)

structure RunOptions where
  synthesis : SynthesisOptions
  /-- Reports the paths that traffic takes instead of the required ones. -/
  check : Bool
  skipConflicts : Bool
  jsonFile : Option String

structure Command where
  input : Input
  options : RunOptions

inductive UsageError
  | unknownOption (name : String)
  | missingValue (name : String)
  | invalidNumber (name value : String)
  | invalidArguments
  deriving DecidableEq, Repr

namespace UsageError

def usage : String :=
  "\n".intercalate [
    "usage: pathpolicy synthesize TOPOLOGY REQUIREMENTS [OPTION]...",
    "       pathpolicy example (diamond | velenj) [OPTION]...",
    "",
    "  -t, --threads N         number of workers",
    "  -s, --allow-self-paths  collapse hops from a router to itself",
    "  -c, --check             report required paths that traffic does not take",
    "  -p, --partial           skip conflicting requirements",
    "      --community-asn N   upper half of the communities",
    "      --json FILE         write the configurations to FILE as JSON"]

def reason : UsageError → String
  | unknownOption name => s!"unknown option {name}"
  | missingValue name => s!"option {name} needs a value"
  | invalidNumber name value => s!"{value} is no valid number for {name}"
  | invalidArguments => "invalid arguments"

def message (e : UsageError) : String := e.reason ++ "\n" ++ usage

end UsageError

namespace RunOptions

def default : RunOptions := ⟨.sequential, false, false, none⟩

def withFlag? (o : RunOptions) : String → Option RunOptions
  | "-s" | "--allow-self-paths" =>
    some { o with synthesis := { o.synthesis with allowSelfPaths := true } }
  | "-c" | "--check" => some { o with check := true }
  | "-p" | "--partial" => some { o with skipConflicts := true }
  | _ => none

def takesValue (name : String) : Bool :=
  ["-t", "--threads", "--community-asn", "--json"].contains name

def number (limit : Nat) (name value : String) : Except UsageError Nat :=
  match Text.unsigned? limit value.toList with
  | some n => .ok n
  | none => .error (.invalidNumber name value)

def withValue (o : RunOptions) (name value : String) : Except UsageError RunOptions :=
  match name with
  | "--json" => .ok { o with jsonFile := some value }
  | "--community-asn" => do
    let communityAsn ← number Text.limit32 name value
    return { o with synthesis := { o.synthesis with communityAsn } }
  | _ => do
    let threads ← number Text.limit64 name value
    return { o with synthesis := { o.synthesis with threads } }

end RunOptions

namespace Command

/-- Takes the value off `--name=value`. -/
def splitOption (arg : String) : List String :=
  let name := arg.toList.takeWhile (· ≠ '=')
  match arg.toList.drop name.length with
  | '=' :: value => if name.take 2 = ['-', '-'] then [.ofList name, .ofList value] else [arg]
  | _ => [arg]

/-- The arguments that are no options, and the options. -/
def readOptions (o : RunOptions) : List String → Except UsageError (List String × RunOptions)
  | [] => .ok ([], o)
  | [arg] =>
    if RunOptions.takesValue arg then .error (.missingValue arg)
    else match o.withFlag? arg with
      | some o => .ok ([], o)
      | none => if arg.toList.head? = some '-' then .error (.unknownOption arg) else .ok ([arg], o)
  | arg :: value :: rest =>
    if RunOptions.takesValue arg then
      o.withValue arg value >>= fun o => readOptions o rest
    else match o.withFlag? arg with
      | some o => readOptions o (value :: rest)
      | none =>
        if arg.toList.head? = some '-' then .error (.unknownOption arg)
        else (readOptions o (value :: rest)).map fun (args, o) => (arg :: args, o)

def input? : List String → Option Input
  | ["synthesize", topology, requirements] => some (.files topology requirements)
  | ["example", "diamond"] => some (.network Network.Diamond.topology [Network.Diamond.balanced])
  | ["example", "velenj"] => some (.network Network.Velenj.topology [Network.Velenj.requirement])
  | _ => none

def ofArguments (args : List String) : Except UsageError Command := do
  let (names, options) ← readOptions .default (args.flatMap splitOption)
  match input? names with
  | some input => return ⟨input, options⟩
  | none => throw .invalidArguments

end Command

end PathPolicy
