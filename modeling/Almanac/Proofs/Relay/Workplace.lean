import Almanac.Proofs.Broker.Conservation
import Almanac.Relay.Crew

/-! Handlers at work on the deliveries of a broker, in any order of their steps.
The steps are those of a crew, but the crew is chosen anew for each step: its target may take or
refuse any notification, and it may have been asked to stop at any time.
-/

namespace Almanac.Relay

open Time Broker

namespace Target

/-- The moves of an attempt at a queue. -/
def moves (t : Target) (b : Broker.State) (n : Notification) (name : String) : List Move :=
  match t with
  | .forward outlet =>
      match n.encode with
      | .error _ => []
      | .ok payload => outlet.moves b payload name
  | .log _ | .rehearsed _ => []

/-- An attempt does at each queue what its moves say. -/
theorem queueOf_attempt (t : Target) (b : Broker.State) (n : Notification) (name : String)
    : (t.attempt b n).2.2.queueOf name = (b.queueOf name).afterAll (t.moves b n name) := by
  cases t with
  | log written => rfl
  | rehearsed r =>
      simp only [attempt, moves]
      split
      · rfl
      · split <;> rfl
  | forward outlet =>
      cases encoded : n.encode with
      | error e => simp [attempt, moves, encoded]
      | ok payload =>
          have published := outlet.queueOf_publish b payload name
          cases outcome : (outlet.publish b payload).1 <;>
            simpa [attempt, moves, encoded, outcome] using published

theorem push_of_moves {t : Target} {b : Broker.State} {n : Notification} {name : String}
    {move : Move} (member : move ∈ t.moves b n name)
    : ∃ payload, move = .push payload := by
  cases t with
  | log written => cases member
  | rehearsed r => cases member
  | forward outlet =>
      cases encoded : n.encode with
      | error e => simp [moves, encoded] at member
      | ok payload =>
          simp only [moves, encoded] at member
          exact ⟨payload, Outlet.push_of_moves member⟩

end Target

namespace Crew

/-- The moves of a step of a job at a queue. -/
def moves (c : Crew) (b : Broker.State) (job : Job) (name : String) : List Move :=
  match job.stage with
  | .fresh =>
      match Notification.decode job.delivery.body with
      | .error _ =>
          if name = job.delivery.queue then [.refuse job.delivery.tag false] else []
      | .ok n => c.target.moves b n name
  | .relaying _ => []
  | .relayed => if name = job.delivery.queue then [.acknowledge job.delivery.tag] else []
  | .pausing => if name = job.delivery.queue then [.refuse job.delivery.tag true] else []

/-- A settlement by a worker, when it is refused too, does at each queue what its move says. -/
theorem queueOf_settled (b : Broker.State) (queue : String) (tag : Nat) (requeue : Bool)
    (name : String)
    : (settled b (b.settle queue tag requeue)).queueOf name
      = if name = queue then (b.queueOf name).settled tag requeue else b.queueOf name := by
  cases outcome : b.settle queue tag requeue with
  | ok after => exact Broker.State.queueOf_settle outcome name
  | error e =>
      by_cases same : name = queue
      · subst same
        simp [settled, Broker.State.settled_of_settle_error outcome]
      · simp [settled, same]

/-- A step of a job does at each queue what its moves say, by cases on the stage. -/
theorem queueOf_step (c : Crew) (b : Broker.State) (now : Turn) (job : Job) (name : String)
    : (c.step b now job).2.2.queueOf name = (b.queueOf name).afterAll (c.moves b job name) := by
  cases stage : job.stage with
  | fresh =>
      cases decoded : Notification.decode job.delivery.body with
      | error e =>
          simp only [step, moves, stage, decoded, nack, Delivery.nack, queueOf_settled]
          split <;> rfl
      | ok n => simpa [step, moves, stage, decoded] using c.target.queueOf_attempt b n name
  | relaying n => simp [step, moves, stage]
  | relayed =>
      simp only [step, moves, stage, ack, Delivery.ack, queueOf_settled]
      split <;> rfl
  | pausing =>
      simp only [step, moves, stage, nack, Delivery.nack, queueOf_settled]
      split <;> rfl

/-- A job that goes on stays at its delivery. -/
theorem delivery_step {c : Crew} {b : Broker.State} {now : Turn} {job next : Job}
    (goesOn : (c.step b now job).1 = some next)
    : next.delivery = job.delivery := by
  cases stage : job.stage with
  | fresh =>
      cases decoded : Notification.decode job.delivery.body with
      | error e => simp [step, stage, decoded] at goesOn
      | ok n =>
          cases verdict : (c.target.attempt b n).1 <;>
            simp only [step, stage, decoded, verdict, Option.some.injEq] at goesOn <;>
            exact goesOn ▸ rfl
  | relaying n =>
      simp only [step, stage, Option.some.injEq] at goesOn
      exact goesOn ▸ rfl
  | relayed => simp [step, stage] at goesOn
  | pausing => simp [step, stage] at goesOn

end Crew

/-- How far a target is with a notification that it was passed. -/
inductive Progress where
  | attempted
  | relayed
  | refused
  deriving DecidableEq

/-- A handler's dealing with its target: the tag of the delivery in hand and its notification. -/
structure Dealing where
  tag : Nat
  notification : Notification
  progress : Progress
  deriving DecidableEq

/-- What is noted for a queue: what happens there, and how handlers of its deliveries deal with
their targets. -/
inductive Note where
  | happened (happening : Happening)
  | dealt (dealing : Dealing)
  deriving DecidableEq

namespace Note

/-- What happens at the queue. -/
def happening? : Note → Option Happening
  | .happened happening => some happening
  | .dealt _ => none

/-- The tag of which it is decided here whether its delivery is acknowledged. -/
def decided? : Note → Option Nat
  | .happened (.acknowledged _ tag) | .dealt ⟨tag, _, .refused⟩ => some tag
  | _ => none

end Note

/-- A job's dealings with its target in a step. -/
def Crew.dealings (c : Crew) (b : Broker.State) (job : Job) : List Dealing :=
  match job.stage with
  | .fresh =>
      match Notification.decode job.delivery.body with
      | .error _ => []
      | .ok n =>
          ⟨job.delivery.tag, n, .attempted⟩ ::
            match (c.target.attempt b n).1 with
            | .taken => [⟨job.delivery.tag, n, .relayed⟩]
            | .underway _ => []
            | .refused _ => [⟨job.delivery.tag, n, .refused⟩]
  | .relaying n => [⟨job.delivery.tag, n, .relayed⟩]
  | .relayed | .pausing => []

/-- A job whose target refuses, after a while, what it was taking. -/
def Job.balk (j : Job) (now : Turn) : Job :=
  match j.stage with
  | .relaying _ => j.become .pausing now
  | _ => j

theorem Job.delivery_balk (j : Job) (now : Turn) : (j.balk now).delivery = j.delivery := by
  unfold balk
  split <;> rfl

def Job.balking (j : Job) : List Dealing :=
  match j.stage with
  | .relaying n => [⟨j.delivery.tag, n, .refused⟩]
  | _ => []

/-- A broker with its clients, and the deliveries in the hands of handlers. -/
structure Workplace where
  market : Market := {}
  jobs : List Job := []

/-- What clients and handlers do. Every delivery that is taken becomes a job, and only steps of
jobs settle deliveries. -/
inductive WorkAct where
  | client (act : ClientAct)
  | take (place session : Nat) (turn : Turn)
  /-- A handler goes on with a job, as a worker of the crew. -/
  | work (job : Job) (crew : Crew) (now : Turn)
  | balk (job : Job) (now : Turn)
  /-- A handler ends with its job in hand. -/
  | abandon (job : Job)

namespace Workplace

/-- One act. What cannot be done changes nothing. -/
def step (w : Workplace) : WorkAct → Workplace
  | .client act => { w with market := w.market.serve act }
  | .take place session turn =>
      match w.market.receive? place session with
      | some (d, market) => ⟨market, w.jobs ++ [⟨d, .fresh, turn⟩]⟩
      | none => w
  | .work job crew now =>
      if job ∈ w.jobs then
        let (next, _, broker) := crew.step w.market.broker now job
        ⟨w.market.onBroker broker, w.jobs.erase job ++ next.toList⟩
      else w
  | .balk job now =>
      if job ∈ w.jobs then { w with jobs := w.jobs.erase job ++ [job.balk now] } else w
  | .abandon job => { w with jobs := w.jobs.erase job }

def run (w : Workplace) (acts : List WorkAct) : Workplace :=
  acts.foldl step w

/-- The moves of an act at a queue. -/
def moves (w : Workplace) (name : String) : WorkAct → List Move
  | .client act => w.market.actMoves name (.client act)
  | .take place session _ => w.market.actMoves name (.receive place session)
  | .work job crew _ => if job ∈ w.jobs then crew.moves w.market.broker job name else []
  | .balk _ _ | .abandon _ => []

/-- An act's dealings with a target, if it goes on with a delivery of a queue. -/
def dealings (w : Workplace) (name : String) : WorkAct → List Dealing
  | .work job crew _ =>
      if job ∈ w.jobs ∧ job.delivery.queue = name then crew.dealings w.market.broker job else []
  | .balk job _ => if job ∈ w.jobs ∧ job.delivery.queue = name then job.balking else []
  | .client _ | .take _ _ _ | .abandon _ => []

/-- What is noted of an act for a queue. -/
def notes (w : Workplace) (name : String) (act : WorkAct) : List Note :=
  (w.dealings name act).map .dealt
    ++ ((w.market.broker.queueOf name).log (w.moves name act)).map .happened

/-- What is noted of acts for a queue, one after the other. -/
def history (w : Workplace) (name : String) : List WorkAct → List Note
  | [] => []
  | act :: acts => w.notes name act ++ (w.step act).history name acts

theorem history_append (w : Workplace) (name : String) (acts more : List WorkAct)
    : w.history name (acts ++ more) = w.history name acts ++ (w.run acts).history name more := by
  induction acts generalizing w with
  | nil => rfl
  | cons act acts ih => simp [history, run, ih]

theorem queueOf_step (w : Workplace) (act : WorkAct) (name : String)
    : (w.step act).market.broker.queueOf name
      = (w.market.broker.queueOf name).afterAll (w.moves name act) := by
  cases act with
  | client act => exact w.market.queueOf_step (.client act) name
  | take place session turn =>
      have step := w.market.queueOf_step (.receive place session) name
      cases taken : w.market.receive? place session with
      | none => simpa [Workplace.step, Market.step, taken, moves] using step
      | some result => simpa [Workplace.step, Market.step, taken, moves] using step
  | work job crew now =>
      by_cases member : job ∈ w.jobs
      · simpa [step, moves, member, Market.onBroker]
          using crew.queueOf_step w.market.broker now job name
      · simp [step, moves, member]
  | balk job now =>
      simp only [step, moves, Queue.afterAll_nil]
      split <;> rfl
  | abandon job => rfl

end Workplace

end Almanac.Relay
