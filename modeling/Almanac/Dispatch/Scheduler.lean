import Almanac.Broker.Outlet
import Almanac.Dispatch.Pass
import Almanac.Store.Storage
import Almanac.Time.Turn

/-! The scheduler: its notify loop and its sweep loop.
Both loops work as soon as they start and then once in every cycle. A loop that fails gives up and
leaves the scheduler degraded until it is stopped.
-/

namespace Almanac.Dispatch

open Time Store Broker

/-- What passes work on. -/
structure Site where
  storage : Storage
  outlet : Outlet
  broker : Broker.State

/-- The answer to a question of a pass. -/
def Site.answer : (q : Ask) → Site → q.Reply × Site
  | .store c, s =>
      let (answer, storage) := s.storage.answer c
      (answer, { s with storage })
  | .publish payload, s =>
      let (answer, outlet, broker) := s.outlet.publish s.broker payload
      (answer, { s with outlet, broker })

/-- Runs a pass alone. -/
def Site.run {α : Type} (s : Site) (p : Pass α) : Except SchedulerError α × Site :=
  p.run Site.answer s

/-- What a loop does in each cycle. -/
inductive Task where
  | notify
  | sweep
  deriving DecidableEq, Repr

/-- How far a loop is: waiting for its next cycle, in a cycle that will fail, or at its end. -/
inductive Phase where
  | waiting (next : Turn)
  | failing (deadline : Turn)
  | ended
  deriving DecidableEq, Repr

/-- When a loop goes on by itself. -/
def Phase.wake? : Phase → Option Turn
  | .waiting next => some next
  | .failing deadline => some deadline
  | .ended => none

/-- One of the scheduler's loops. -/
structure Loop where
  task : Task
  phase : Phase
  deriving DecidableEq, Repr

/-- Whether the scheduler works. -/
inductive Status where
  | stopped
  | running
  /-- Started, but a loop gave up. -/
  | degraded
  deriving DecidableEq, Repr

/-- The scheduler: its settings, where it publishes, its status, and its loops while started. -/
structure Scheduler where
  settings : Settings
  outlet : Outlet
  status : Status := .stopped
  loops : Option (List Loop) := none
  deriving DecidableEq, Repr

namespace Scheduler

/-- Connects the outlet and starts both loops, which begin at a turn. -/
def start (s : Scheduler) (b : Broker.State) (turn : Turn)
    : Except SchedulerError (Scheduler × Broker.State) :=
  if s.loops.isSome then .error .alreadyRunning
  else if s.settings.cycle.nanos = 0 then
    .error (.invalidConfig "work cycle must be greater than zero")
  else
    match s.outlet.connect b with
    | .error cause => .error (.queue cause)
    | .ok (outlet, b) =>
        .ok
          ({ s with
             outlet
             status := .running
             loops := some [⟨.notify, .waiting turn⟩, ⟨.sweep, .waiting turn⟩] }, b)

/-- Takes the loops away from the scheduler, the first step of a stop. Others may start it anew
before the stop has ended. -/
def dismiss (s : Scheduler) : Option (List Loop) × Scheduler :=
  (s.loops, { s with loops := none })

/-- When the cycles under way of dismissed loops have ended. -/
def quietAt (loops : List Loop) (time : Nat) : Nat :=
  loops.foldl
    (fun quiet loop =>
      match loop.phase with
      | .failing deadline => max quiet deadline.time
      | _ => quiet)
    time

/-- Whether a stop has to wait for dismissed loops: those that ended before have gone already. -/
def anyLeft (loops : List Loop) : Bool :=
  loops.any (·.phase ≠ .ended)

/-- Ends a stop when the dismissed loops have gone: the scheduler counts as stopped, and its outlet
is closed. -/
def finishStop (s : Scheduler) : Except SchedulerError Unit × Scheduler :=
  let (closed, outlet) := s.outlet.close
  (closed.mapError .queue, { s with outlet, status := .stopped })

/-- When a loop goes on next. -/
def wake? (s : Scheduler) : Option Turn :=
  ((s.loops.getD []).filterMap (·.phase.wake?)).min?

/-- One cycle of a task; whether it succeeded. A partly failed batch is no failure of the loop. -/
def work (settings : Settings) (task : Task) (now : Instant) (site : Site) : Bool × Site :=
  match task with
  | .notify =>
      let (report, site) := site.run (notifyDue now)
      (report.isOk, site)
  | .sweep =>
      let (removed, site) := site.run (purgeExpired settings now)
      (removed.isOk, site)

/-- A loop after its work: it waits for the next cycle, or it ends, once it has waited in vain. -/
def afterWork (settings : Settings) (next now : Turn) (succeeded : Bool) (took : Nat) : Phase :=
  if succeeded then .waiting ⟨next.time + max 1 settings.cycle.millis, now.place⟩
  else if took = 0 then .ended
  else .failing (now.after took)

/-- Lets a loop go on at its turn: it works, or ends a cycle that failed. -/
def advanceLoop (settings : Settings) (turn now : Turn) (wall : Instant) (loop : Loop) (site : Site)
    : Loop × Site :=
  if loop.phase.wake? ≠ some turn then (loop, site)
  else
    match loop.phase with
    | .waiting next =>
        let (succeeded, after) := work settings loop.task wall site
        let took := after.storage.waited.millis - site.storage.waited.millis
        ({ loop with phase := afterWork settings next now succeeded took }, after)
    | _ => ({ loop with phase := .ended }, site)

def advanceLoops (settings : Settings) (turn now : Turn) (wall : Instant)
    : List Loop → Site → List Loop × Site
  | [], site => ([], site)
  | loop :: loops, site =>
      let (loop, site) := advanceLoop settings turn now wall loop site
      let (loops, site) := advanceLoops settings turn now wall loops site
      (loop :: loops, site)

/-- Lets the loops of a turn go on; `wall` is what the clock on the wall shows. -/
def advance (s : Scheduler) (turn now : Turn) (wall : Instant) (storage : Storage)
    (b : Broker.State) : Scheduler × Storage × Broker.State :=
  match s.loops with
  | none => (s, storage, b)
  | some loops =>
      let (loops, site) :=
        advanceLoops s.settings turn now wall loops { storage, outlet := s.outlet, broker := b }
      let status := if loops.any (·.phase = .ended) then .degraded else s.status
      ({ s with outlet := site.outlet, status, loops := some loops }, site.storage, site.broker)

end Scheduler

end Almanac.Dispatch
