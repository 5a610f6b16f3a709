import Almanac.Broker.Drain
import Almanac.Dispatch.Scheduler
import Almanac.Relay.Shift

/-! Storage, broker, schedulers and a sender at work on one clock.
Nothing takes time but waiting, so the clock moves from one turn to the next. Whoever drives the
timeline goes first when its own wait ends, and what is due at that time, or is called then, goes on
as soon as it waits again. Times are in milliseconds.
-/

namespace Almanac

open Time Store Broker Dispatch Relay

/-- All that shares the clock. `turns` counts the places given out, `wall` is what the clock on the
wall shows to schedulers, and `forgotten` are the schedulers that were replaced while started: their
loops go on. -/
structure Timeline where
  clock : Nat := 0
  turns : Nat := 0
  wall : Instant
  storage : Storage := {}
  broker : Broker.State := {}
  scheduler : Option Scheduler := none
  forgotten : List Scheduler := []
  shift : Option Shift := none

namespace Timeline

/-- The turn of what is called or begins to wait now. -/
def present (t : Timeline) : Turn :=
  ⟨t.clock, t.turns⟩

def nextPlace (t : Timeline) : Timeline :=
  { t with turns := t.turns + 1 }

/-- All schedulers, those that were replaced first. -/
def schedulers (t : Timeline) : List Scheduler :=
  t.forgotten ++ t.scheduler.toList

def wake? (t : Timeline) : Option Turn :=
  (t.schedulers.filterMap (·.wake?) ++ (t.shift.bind Shift.wake?).toList).min?

/-- Lets the loops of a turn go on, of one scheduler after the other. -/
def advanceSchedulers (turn now : Turn) (wall : Instant)
    : List Scheduler → Storage → Broker.State → List Scheduler × Storage × Broker.State
  | [], storage, b => ([], storage, b)
  | s :: rest, storage, b =>
      let (s, storage, b) := s.advance turn now wall storage b
      let (rest, storage, b) := advanceSchedulers turn now wall rest storage b
      (s :: rest, storage, b)

/-- Lets the loops of a turn go on. -/
def advanceScheduling (t : Timeline) (turn now : Turn) : Timeline :=
  let (forgotten, storage, broker) :=
    advanceSchedulers turn now t.wall t.forgotten t.storage t.broker
  let (current, storage, broker) :=
    advanceSchedulers turn now t.wall t.scheduler.toList storage broker
  { t with forgotten, scheduler := current.head?, storage, broker }

/-- Applies a change to the run under way. -/
def onShift (t : Timeline) (change : Shift → Shift × Broker.State) : Timeline :=
  match t.shift with
  | some shift =>
      let (shift, broker) := change shift
      { t with broker, shift := some shift }
  | none => t

/-- Calls the worker of the run that waits for a delivery when there is one. -/
def alert (t : Timeline) (now : Turn) : Timeline :=
  { t with shift := t.shift.map (Shift.alert t.broker now) }

/-- Lets go on what has a turn, at the time of that turn. -/
def take (t : Timeline) (turn : Turn) : Timeline :=
  let t := { t with clock := max t.clock turn.time }
  let now := t.present
  let t := t.nextPlace.advanceScheduling turn now
  (t.onShift (·.advance t.broker turn now)).alert now

/-- How many turns one millisecond may see. Each message goes from hand to hand a few times, and
each scheduler may publish each event once. -/
def bustle (t : Timeline) : Nat :=
  let published := t.schedulers.length * (t.storage.size + 1)
  4 * (t.broker.size + published + (t.shift.map Shift.bustle).getD 0 + 1)

/-- Lets everything go on whose turn comes before a time. The fuel bounds the number of turns. -/
def advanceBefore (fuel : Nat) (time : Nat) (t : Timeline) : Timeline :=
  match fuel with
  | 0 => t
  | fuel + 1 =>
      match t.wake? with
      | some turn => if turn.time < time then (t.take turn).advanceBefore fuel time else t
      | none => t

/-- Lets everything go on whose turn comes before a time. -/
def passBefore (t : Timeline) (time : Nat) : Timeline :=
  t.advanceBefore ((time - t.clock) * t.bustle) time

/-- Lets time pass until a given time. What is due at just that time has not gone on yet. -/
def waitUntil (t : Timeline) (time : Nat) : Timeline :=
  let after := t.passBefore time
  { after with clock := max after.clock time }

def wait (t : Timeline) (millis : Nat) : Timeline :=
  t.waitUntil (t.clock + millis)

/-- Lets everything go on that is due, while no time passes. -/
def settle (t : Timeline) : Timeline :=
  t.passBefore (t.clock + 1)

/-- Does something with storage, and lets the time pass that it waited for an answer. -/
def withStorage {α : Type} (t : Timeline) (act : Storage → α × Storage) : α × Timeline :=
  let (result, storage) := act t.storage
  let took := storage.waited.millis - t.storage.waited.millis
  (result, { t with storage }.wait took)

/-- Runs a pass by hand, with a scheduler's outlet. -/
def runPass {α : Type} (t : Timeline) (s : Scheduler) (pass : Pass α)
    : Except SchedulerError α × Timeline :=
  let site : Site := { storage := t.storage, outlet := s.outlet, broker := t.broker }
  let (result, site) := site.run pass
  let took := site.storage.waited.millis - t.storage.waited.millis
  (result,
    { t with
      storage := site.storage
      broker := site.broker
      scheduler := some { s with outlet := site.outlet } }.wait took)

/-- Puts a scheduler in the place of the one before it, which is not stopped. -/
def install (t : Timeline) (s : Scheduler) : Timeline :=
  { t with
    scheduler := some s
    forgotten := t.forgotten ++ t.scheduler.toList.filter (·.loops.isSome) }

/-- Starts a scheduler. Its loops begin as soon as time is let pass. -/
def startScheduler (t : Timeline) (s : Scheduler) : Except SchedulerError Unit × Timeline :=
  match s.start t.broker t.present with
  | .error e => (.error e, t)
  | .ok (s, broker) => (.ok (), { t with scheduler := some s, broker }.nextPlace)

/-- Stops a scheduler after the cycles that are under way, for which everything else goes on too. A
scheduler without loops stays as it is. -/
def stopScheduler (t : Timeline) (s : Scheduler) : Except SchedulerError Unit × Timeline :=
  match s.dismiss with
  | (none, s) => (.ok (), { t with scheduler := some s })
  | (some loops, s) =>
      let t := { t with scheduler := some s }.waitUntil (Scheduler.quietAt loops t.clock)
      let t := if Scheduler.anyLeft loops then t.settle else t
      let (result, s) := s.finishStop
      (result, { t with scheduler := some s })

/-- Consumes with a consumer what there is, after all that is due. The consumption is looked after
one millisecond later: unless it has ended by itself, it is ended then, while the rest goes on. -/
def consume (t : Timeline) (c : Consumer) (m : Manner) (limit : Option Nat) (close : Bool)
    : Except QueueError Unit × List Taken × Consumer × Timeline :=
  let t := t.settle
  let (result, taken, after, broker) := c.consume t.broker m limit close
  let t := { t with broker }.wait 1
  let endedAlone := c.session.isNone || limit = some taken.length
  (result, taken, after, if endedAlone then t else t.settle)

/-- What a sender's run came to, and how long it took. -/
structure Run where
  outcome : Except SenderError Unit
  took : Nat
  deriving Repr

/-- Starts a sender's run, which begins as soon as time is let pass. -/
def startRun (t : Timeline) (s : Sender) : Timeline :=
  { t with shift := some (.arriving s t.present false) }.nextPlace

/-- Closes the consumer of the run under way. -/
def closeConsumer (t : Timeline) : Timeline :=
  ((t.onShift (·.closeConsumer t.broker)).alert t.present).nextPlace

/-- Ends the run under way and waits for it: the run finishes what it has in hand. -/
def endRun (t : Timeline) (ending : Ending) : Timeline :=
  if t.shift.all Shift.isOver then t
  else
    let t := { t with shift := t.shift.map (Shift.stop ending t.present) }.nextPlace.settle
    let last := (t.shift.map (Shift.lastDeadline t.clock)).getD t.clock
    (t.waitUntil last).settle

/-- Runs a sender for some milliseconds and ends its run. Its consumer can be closed before, some
milliseconds after the start. -/
def runSender (t : Timeline) (s : Sender) (millis : Nat) (closeAt : Option Nat) (ending : Ending)
    : Run × Sender × Timeline :=
  let start := t.clock
  let t := t.startRun s
  let t :=
    match closeAt with
    | some closing => (t.waitUntil (start + closing)).closeConsumer
    | none => t
  let t := (t.waitUntil (start + millis)).endRun ending
  let took := t.clock - start
  let (outcome, s) : Except SenderError Unit × Sender :=
    match t.shift with
    | some (.over s outcome) => (outcome, s)
    | _ => (.ok (), s)
  ({ outcome, took }, s.ended ending, { t with shift := none })

end Timeline

end Almanac
