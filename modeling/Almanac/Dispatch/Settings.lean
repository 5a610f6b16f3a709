import Almanac.Environment
import Almanac.Event.Document

/-! Settings of the scheduler. -/

namespace Almanac.Dispatch

open Time

/-- How often the scheduler works, and how long it keeps events after their end. -/
structure Settings where
  cycle : Delay := .ofSeconds 60
  retention : Delay := .ofSeconds 31536000
  deriving DecidableEq, Repr

namespace Settings

/-- The names of the fields in documents, in their order. -/
def fieldNames : List String :=
  ["work_cycle", "expiration"]

def toJson (s : Settings) : Except WriteError Json := do
  let cycle ← Json.ofDelay s.cycle
  let retention ← Json.ofDelay s.retention
  .ok (.record [("work_cycle", cycle), ("expiration", retention)])

/-- The scheduler settings that a document gives. -/
def ofJson? (v : Json) : Option Settings := do
  let fields ← v.fields? fieldNames
  let cycle ← Json.required? fields "work_cycle" Json.delay?
  let retention ← Json.required? fields "expiration" Json.delay?
  some { cycle, retention }

/-- The scheduler settings of an environment, which gives whole seconds. -/
def ofEnvironment (env : Environment) : Settings :=
  let defaults : Settings := {}
  let seconds? (name : String) := (env.number? name 18446744073709551615).map Delay.ofSeconds
  { cycle := (seconds? "SCHEDULER_WORK_CYCLE_SECS").getD defaults.cycle
    retention := (seconds? "SCHEDULER_EXPIRATION_SECS").getD defaults.retention }

end Settings

end Almanac.Dispatch
