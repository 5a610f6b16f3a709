import Almanac.Broker.Pool
import Almanac.Relay.Target

/-! A crew of workers that handle one consumer's deliveries.
Each worker takes a message, relays its notification and settles it: it acknowledges what was taken,
drops what cannot be decoded, and after a pause returns what was refused. It does so step by step,
and others may act between its steps. Asked to stop, workers finish what they have in hand; a pause
is cut short.
-/

namespace Almanac.Relay

open Time Broker

/-- How far a worker is with the delivery in its hands. -/
inductive Stage where
  /-- It was taken and not looked at yet. -/
  | fresh
  | relaying (n : Notification)
  /-- The target has taken the notification; the message is acknowledged next. -/
  | relayed
  /-- The target refused; the message returns to its queue after the pause. -/
  | pausing
  deriving DecidableEq, Repr

/-- A delivery in a worker's hands, and the turn at which the worker goes on with it. -/
structure Job where
  delivery : Delivery
  stage : Stage
  turn : Turn
  deriving DecidableEq, Repr

def Job.become (j : Job) (stage : Stage) (turn : Turn) : Job :=
  { j with stage, turn }

/-- A job whose pause, if it is in one, ends now. -/
def Job.hurry (j : Job) (now : Turn) : Job :=
  if j.stage = .pausing ∧ now.time < j.turn.time then { j with turn := now } else j

/-- Workers at the deliveries of one session of a consumer, and where they relay to. -/
structure Crew where
  consumer : Consumer
  session : Nat
  target : Target
  /-- How long a refused message waits, in milliseconds. -/
  retryDelay : Nat
  pool : Pool Job
  deriving DecidableEq, Repr

namespace Crew

/-- What remains of a broker after a settlement, which may fail. -/
def settled (b : Broker.State) (after : Except QueueError Broker.State) : Broker.State :=
  match after with
  | .ok b => b
  | .error _ => b

def ack (b : Broker.State) (d : Delivery) : Broker.State :=
  settled b (d.ack b)

def nack (b : Broker.State) (d : Delivery) (requeue : Bool) : Broker.State :=
  settled b (d.nack b requeue)

/-- How long a worker waits before it returns a refused message: not at all in a crew that stops. -/
def pause (c : Crew) : Nat :=
  if c.pool.cancelled then 0 else c.retryDelay

/-- One step of a job. It gives the job at its next stage, or none when the delivery is settled. -/
def step (c : Crew) (b : Broker.State) (now : Turn) (job : Job)
    : Option Job × Crew × Broker.State :=
  match job.stage with
  | .fresh =>
      match Notification.decode job.delivery.body with
      | .error _ => (none, c, nack b job.delivery false)
      | .ok n =>
          let (verdict, target, b) := c.target.attempt b n
          let next :=
            match verdict with
            | .taken => job.become .relayed now
            | .underway millis => job.become (.relaying n) (now.after millis)
            | .refused _ => job.become .pausing (now.after c.pause)
          (some next, { c with target }, b)
  | .relaying n => (some (job.become .relayed now), { c with target := c.target.finish n }, b)
  | .relayed => (none, c, ack b job.delivery)
  | .pausing => (none, c, nack b job.delivery true)

/-- Lets a job go on for at most so many steps, until its worker has to wait or is free again. -/
def goOn (now : Turn) : (steps : Nat) → Job → Crew → Broker.State → Crew × Broker.State
  | 0, job, c, b => ({ c with pool := c.pool.keep job }, b)
  | steps + 1, job, c, b =>
      if now.time < job.turn.time then ({ c with pool := c.pool.keep job }, b)
      else
        match c.step b now job with
        | (some job, c, b) => goOn now steps job c b
        | (none, c, b) => ({ c with pool := c.pool.release }, b)

/-- Lets a job go on as far as it can; no job has more than three steps. -/
def handle (now : Turn) (job : Job) (c : Crew) (b : Broker.State) : Crew × Broker.State :=
  goOn now 3 job c b

/-- What the worker at the stream finds. -/
inductive Found where
  | delivery (d : Delivery) (b : Broker.State)
  | nothing
  /-- The consumer is closed and nothing is left to deliver. -/
  | theEnd

/-- Looks for the next delivery. Once the consumer is closed, a bounded prefetch gives no more. -/
def look (c : Crew) (b : Broker.State) : Found :=
  let closed := c.consumer.session ≠ some c.session
  if closed ∧ c.consumer.settings.prefetch ≠ 0 then .theEnd
  else
    match c.consumer.take? b c.session with
    | some (d, b) => .delivery d b
    | none => if closed then .theEnd else .nothing

/-- The worker at the stream takes a delivery, when there is one. If it is free again at once and no
other was in line, it takes the next. The fuel bounds how many it takes. -/
def read (now : Turn) : (fuel : Nat) → Crew → Broker.State → Crew × Broker.State
  | 0, c, b => ({ c with pool := c.pool.wait }, b)
  | fuel + 1, c, b =>
      match c.look b with
      | .delivery d b =>
          let (c, b) := handle now ⟨d, .fresh, now⟩ { c with pool := c.pool.occupy now } b
          if c.pool.isUnattended then read now fuel c b else (c, b)
      | .nothing => ({ c with pool := c.pool.wait }, b)
      | .theEnd => ({ c with pool := c.pool.fail .streamClosed }, b)

/-- Enough fuel for every message that is ready and every refusal to come. -/
def fuel (c : Crew) (b : Broker.State) : Nat :=
  b.readyCount c.consumer.settings.queue + c.pool.jobs.length + c.target.patience + 1

/-- Lets the worker at the stream take what it can. -/
def readAll (c : Crew) (b : Broker.State) (now : Turn) : Crew × Broker.State :=
  read now (c.fuel b) c b

/-- Calls the worker that waits at the stream when there is something for it. -/
def alert (c : Crew) (b : Broker.State) (now : Turn) : Crew :=
  match c.look b with
  | .nothing => c
  | _ => { c with pool := c.pool.call now }

/-- When the crew goes on next. -/
def wake? (c : Crew) : Option Turn :=
  (c.pool.jobs.map Job.turn ++ c.pool.reader.wake?.toList).min?

/-- Lets the worker of a turn go on, at the stream or with its job. A worker that is done with its
job goes to the stream when nobody is there, and else into line. -/
def advance (c : Crew) (b : Broker.State) (turn now : Turn) : Crew × Broker.State :=
  if c.pool.reader.wake? = some turn then c.readAll b now
  else
    match c.pool.jobs.find? (·.turn = turn) with
    | none => (c, b)
    | some job =>
        let pool := { c.pool with jobs := c.pool.jobs.erase job }
        let (c, b) := handle now job { c with pool } b
        if c.pool.isUnattended then c.readAll b now else (c, b)

/-- When the crew has finished the jobs in hand, or a given time if that is later. -/
def lastDeadline (c : Crew) (time : Nat) : Nat :=
  (c.pool.jobs.map (·.turn.time)).foldl max time

/-- Asks the crew to stop: no worker takes another delivery, and pauses end at once. -/
def stop (c : Crew) (now : Turn) : Crew :=
  { c with pool := { c.pool.cancel with jobs := c.pool.jobs.map (·.hurry now) } }

end Crew

end Almanac.Relay
