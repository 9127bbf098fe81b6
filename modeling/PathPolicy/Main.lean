import PathPolicy.Report

/-! The command line program. It prints the configurations of all routers. -/

namespace PathPolicy

def Input.load : Input → IO (Except String (Topology × List Requirement))
  | .network t requirements => return .ok (t, requirements)
  | .files topology requirements => do
    return ofTexts (← IO.FS.readFile topology) (← IO.FS.readFile requirements)

def Report.write (r : Report) (jsonFile : Option String) : IO Unit := do
  r.warnings.forM fun line => IO.eprintln line
  match jsonFile with
  | some file => IO.FS.writeFile file r.jsonText
  | none => IO.println r.text

def Command.run (c : Command) : IO UInt32 := do
  let report := (← c.input.load).bind fun (t, requirements) =>
    (Report.ofRequirements c.options t requirements).mapError (·.message)
  match report with
  | .error message => IO.eprintln message *> return 1
  | .ok r => r.write c.options.jsonFile *> return 0

end PathPolicy

def main (args : List String) : IO UInt32 := do
  match PathPolicy.Command.ofArguments args with
  | .error e => IO.eprintln e.message *> return 2
  | .ok c => c.run
