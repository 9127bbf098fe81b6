import PathPolicy.Command
import PathPolicy.Config.Emit
import PathPolicy.Config.Json
import PathPolicy.Forwarding.Fidelity
import PathPolicy.Json.Printer
import PathPolicy.Requirement.Parser

/-! The outcome of a run: the configurations, and what to tell about them. -/

namespace PathPolicy

structure Report where
  devices : List DeviceConfig
  conflicts : List Conflict
  violations : List Violation

namespace Report

/-- Without `skipConflicts`, a conflict is an error. -/
def ofRequirements (o : RunOptions) (t : Topology) (requirements : List Requirement) :
    Except Error Report := do
  let s : Synthesizer := ⟨t, o.synthesis⟩
  let (store, rejected) := (Store.ofTopology t).addAll requirements
  if let some e := rejected then throw (.requirement e)
  let (model, conflicts) ← s.synthesizePartial store
  if !o.skipConflicts && !conflicts.isEmpty then throw (.conflicts conflicts)
  let groups ← s.groups store
  let violations := if o.check then model.violations t groups else []
  return ⟨model.devices t, conflicts, violations⟩

def warnings (r : Report) : List String :=
  let count := r.conflicts.length
  (if count = 0 then [] else [s!"{count} conflicts were skipped"]) ++ r.violations.map (·.message)

def text (r : Report) : String := DeviceConfig.textOfAll r.devices

def jsonText (r : Report) : String := (Json.ofList DeviceConfig.toJson r.devices).print

end Report

namespace Input

/-- The topology and the requirements that two texts describe. -/
def ofTexts (topology requirements : String) : Except String (Topology × List Requirement) := do
  match Description.ofText? topology with
  | none => throw "the topology is not a valid description"
  | some d =>
    let t ← (Topology.ofDescription d).mapError fun e => (Error.topology e).message
    let rs ← (Requirement.parse requirements).mapError fun e => (Error.parse e).message
    return (t, rs)

end Input

end PathPolicy
