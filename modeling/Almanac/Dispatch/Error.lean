import Almanac.Broker.Error
import Almanac.Event.Notification
import Almanac.Store.Error

/-! Why the scheduler fails, as a whole or at single events. -/

namespace Almanac.Dispatch

open Broker

/-- Why one due event was not dispatched. -/
inductive DispatchError where
  | encode (cause : CodecError)
  | publish (cause : QueueError)
  /-- It was published, but that was not recorded. -/
  | mark (cause : StoreError)
  deriving DecidableEq, Repr

def DispatchError.message : DispatchError → String
  | .encode cause => "encode: " ++ cause.message
  | .publish cause => "publish: " ++ cause.message
  | .mark cause => "mark notified: " ++ cause.message

/-- A due event that was not dispatched, and why. -/
structure EventFailure where
  event : Uuid
  error : DispatchError
  deriving DecidableEq, Repr

/-- The due events of one pass that were not dispatched. -/
structure PartialBatch where
  due : Nat
  failures : List EventFailure
  deriving DecidableEq, Repr

/-- The text of a pass with failures. -/
def PartialBatch.message (b : PartialBatch) : String :=
  s!"{b.failures.length} of {b.due} due events failed"
    ++ String.join (b.failures.map fun f => s!"; {f.event}: {f.error.message}")

/-- Refusals and failures of the scheduler. -/
inductive SchedulerError where
  | alreadyRunning
  | invalidConfig (text : String)
  | store (cause : StoreError)
  | queue (cause : QueueError)
  | partialBatch (batch : PartialBatch)
  deriving DecidableEq, Repr

/-- The text of a refusal or failure. -/
def SchedulerError.message : SchedulerError → String
  | .alreadyRunning => "scheduler is already running"
  | .invalidConfig text => s!"invalid scheduler configuration: {text}"
  | .store cause => "store error: " ++ cause.message
  | .queue cause => "queue error: " ++ cause.message
  | .partialBatch batch => batch.message

end Almanac.Dispatch
