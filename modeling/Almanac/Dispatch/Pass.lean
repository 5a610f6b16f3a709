import Almanac.Dispatch.Error
import Almanac.Dispatch.Settings
import Almanac.Store.Call

/-! One pass of the scheduler: publishing what is due, or sweeping what is long over.
A pass is a process of store calls and publications, so others may act between them.
-/

namespace Almanac.Dispatch

open Time Query Store Broker

/-- What a pass asks of its surroundings. -/
inductive Ask where
  | store (c : Call)
  | publish (payload : List UInt8)

/-- What it is answered. -/
def Ask.Reply : Ask → Type
  | .store c => c.Answer
  | .publish _ => Except QueueError Unit

/-- A pass with its result or failure. -/
abbrev Pass (α : Type) := Process Ask Ask.Reply (Except SchedulerError α)

/-- What a notify pass did: how many events were due, how many were published and recorded, and
the others. -/
structure Report where
  due : Nat
  published : Nat
  failures : List EventFailure
  deriving DecidableEq, Repr

namespace Report

/-- The report before any of the due events was dispatched. -/
def start (due : Nat) : Report :=
  ⟨due, 0, []⟩

/-- The report with one more event dispatched. -/
def succeed (r : Report) : Report :=
  { r with published := r.published + 1 }

/-- The report with one more event that was not dispatched. -/
def fail (r : Report) (event : Uuid) (error : DispatchError) : Report :=
  { r with failures := r.failures ++ [⟨event, error⟩] }

/-- Whether every due event was dispatched. -/
def isComplete (r : Report) : Bool :=
  r.failures.isEmpty

/-- The number of published events, or else the failures. -/
def result (r : Report) : Except SchedulerError Nat :=
  if r.isComplete then .ok r.published else .error (.partialBatch ⟨r.due, r.failures⟩)

end Report

/-- Dispatches events in turn: each is published and then recorded. A failure at one event does not
keep the others from being dispatched. -/
def dispatchAll (now : Instant) : List Event → Report → Pass Report
  | [], report => .done (.ok report)
  | e :: events, report =>
      match e.notification.encode with
      | .error cause => dispatchAll now events (report.fail e.id (.encode cause))
      | .ok payload =>
          .ask (.publish payload) fun
            | .error cause => dispatchAll now events (report.fail e.id (.publish cause))
            | .ok _ =>
                .ask (.store (.mark [e.id] now)) fun
                  | .error cause => dispatchAll now events (report.fail e.id (.mark cause))
                  | .ok _ => dispatchAll now events report.succeed

def notifyDue (now : Instant) : Pass Report :=
  .ask (.store (.due now)) fun
    | .error cause => .done (.error (.store cause))
    | .ok events => dispatchAll now events (.start (List.length (α := Event) events))

/-- The instant before which ended events are swept, when it is representable. -/
def Settings.cutoff? (s : Settings) (now : Instant) : Option Instant :=
  s.retention.span?.bind now.sub?

/-- Removes every event that ended before the cutoff, and counts them. -/
def purgeExpired (s : Settings) (now : Instant) : Pass Nat :=
  match s.cutoff? now with
  | none => .done (.error (.invalidConfig s!"expiration {s.retention} is out of range"))
  | some cutoff =>
      .ask (.store (.deleteWhere [.of .finish .lt (.one .instant cutoff)])) fun
        | .error cause => .done (.error (.store cause))
        | .ok removed => .done (.ok removed)

end Almanac.Dispatch
