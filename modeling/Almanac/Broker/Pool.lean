import Almanac.Broker.Error
import Almanac.Time.Turn

/-! A pool of workers at one stream of deliveries.
One free worker is at the stream and the others stand in line. With a delivery in hand it leaves the
stream to the next in line, so deliveries are taken in the order of the stream and handled side by
side. A pool stops when it is asked to or when its stream fails; what workers have in hand then is
still finished.
-/

namespace Almanac.Broker

open Time

/-- Who is at the stream. -/
inductive Reader where
  | nobody
  /-- A worker waits there for a delivery. -/
  | waiting
  /-- A worker asks there for a delivery at its turn. -/
  | called (turn : Turn)
  deriving DecidableEq, Repr

/-- When the worker at the stream goes on by itself. -/
def Reader.wake? : Reader → Option Turn
  | .called turn => some turn
  | _ => none

/-- Workers: how many are free, which of them is at the stream, the jobs of the others in the order
in which they began to wait, whether the pool was asked to stop, and how its stream failed first. -/
structure Pool (Job : Type) where
  free : Nat
  reader : Reader
  jobs : List Job := []
  cancelled : Bool := false
  failure : Option QueueError := none
  deriving DecidableEq, Repr

namespace Pool

variable {Job : Type}

/-- A pool of workers, of which there is at least one. The first begins at a turn. -/
def ofWorkers (workers : Nat) (turn : Turn) : Pool Job :=
  { free := max 1 workers, reader := .called turn }

/-- A pool that was asked to stop or whose stream failed takes nothing more. -/
def isStopping (p : Pool Job) : Bool :=
  p.cancelled || p.failure.isSome

/-- Whether the stream is free for a worker that would go to it. -/
def isUnattended (p : Pool Job) : Bool :=
  0 < p.free && p.reader = .nobody && !p.isStopping

/-- The worker at the stream leaves it with a job in hand, and the next in line is called. -/
def occupy (p : Pool Job) (now : Turn) : Pool Job :=
  { p with free := p.free - 1, reader := if 1 < p.free then .called now else .nobody }

/-- A worker that is done with its job is free again. -/
def release (p : Pool Job) : Pool Job :=
  { p with free := p.free + 1 }

/-- A worker waits with its job in hand. -/
def keep (p : Pool Job) (job : Job) : Pool Job :=
  { p with jobs := p.jobs ++ [job] }

/-- A free worker waits at the stream. -/
def wait (p : Pool Job) : Pool Job :=
  { p with reader := .waiting }

/-- Calls the worker that waits at the stream. -/
def call (p : Pool Job) (now : Turn) : Pool Job :=
  if p.reader = .waiting then { p with reader := .called now } else p

/-- A worker that finds the stream failed leaves; the first failure counts. -/
def fail (p : Pool Job) (cause : QueueError) : Pool Job :=
  { p with free := p.free - 1, reader := .nobody, failure := p.failure.or (some cause) }

/-- Asks the workers to stop; none is at the stream any more. -/
def cancel (p : Pool Job) : Pool Job :=
  { p with cancelled := true, reader := .nobody }

/-- Whether every worker has gone: a free one leaves as soon as the pool stops. -/
def isDone (p : Pool Job) : Bool :=
  p.isStopping && p.jobs.isEmpty

/-- What the work came to. That the stream ended is no failure of a pool that was asked to stop. -/
def result (p : Pool Job) : Except QueueError Unit :=
  match p.failure with
  | none => .ok ()
  | some .streamClosed => if p.cancelled then .ok () else .error .streamClosed
  | some cause => .error cause

/-- A pool whose stream did not fail ends well. -/
theorem result_of_failure_eq_none (p : Pool Job) (h : p.failure = none)
    : p.result = .ok () := by
  simp [result, h]

end Pool

end Almanac.Broker
