import Almanac.Relay.Sender

/-! A sender's run from its start to its end.
It begins when its first turn comes, by connecting, and then its crew is at work. It is asked to
stop in one of two ways: a request waits for its turn, and workers whose turn comes before may still
take deliveries; a shutdown reaches the crew at once.
-/

namespace Almanac.Relay

open Time Broker

/-- How a run is ended from outside. -/
inductive Ending where
  | request
  /-- The sender is shut down, for this run and all later ones. -/
  | shutdown
  deriving DecidableEq, Repr

def Sender.ended (s : Sender) (ending : Ending) : Sender :=
  { s with shutDown := s.shutDown || ending = .shutdown }

/-- How far a sender's run is. -/
inductive Shift where
  /-- It was started and begins at its turn; it may have been asked to stop already. -/
  | arriving (sender : Sender) (turn : Turn) (stopped : Bool)
  /-- Its crew is at work. A request to stop may be on its way, and when every worker has gone, the
  run ends at a turn of its own. -/
  | working (sender : Sender) (crew : Crew) (request leave : Option Turn)
  | over (sender : Sender) (outcome : Except SenderError Unit)
  deriving Repr

namespace Shift

/-- When a run goes on next. -/
def wake? : Shift → Option Turn
  | .arriving _ turn _ => some turn
  | .working _ crew request leave =>
      (crew.wake?.toList ++ request.toList ++ leave.toList).min?
  | .over _ _ => none

/-- Whether a run has ended. -/
def isOver : Shift → Bool
  | .over _ _ => true
  | _ => false

/-- A run with its crew at work. It is called to end when every worker has gone. -/
def goOn (sender : Sender) (crew : Crew) (request leave : Option Turn) (now : Turn) : Shift :=
  .working sender crew request (if crew.pool.isDone then leave.or (some now) else leave)

/-- Begins a run: it connects, and its workers begin unless it was asked to stop. -/
def begin (sender : Sender) (stopped : Bool) (b : Broker.State) (now : Turn)
    : Shift × Broker.State :=
  match sender.connect b with
  | (.ok _, sender, b) =>
      let crew := sender.crew now
      (goOn sender (if stopped then crew.stop now else crew) none none now, b)
  | (.error cause, sender, b) => (.over sender (.error cause), b)

/-- Lets a run go on at a turn: it begins, the request to stop reaches it, a worker goes on, or it
ends. -/
def advance (shift : Shift) (b : Broker.State) (turn now : Turn) : Shift × Broker.State :=
  match shift with
  | .arriving sender due stopped =>
      if due = turn then begin sender stopped b now else (.arriving sender due stopped, b)
  | .working sender crew request leave =>
      if leave = some turn then
        let (outcome, sender, b) := sender.disband crew b
        (.over sender outcome, b)
      else if request = some turn then
        (goOn sender (crew.stop now) none leave now, b)
      else
        let (crew, b) := crew.advance b turn now
        (goOn sender crew request leave now, b)
  | .over sender outcome => (.over sender outcome, b)

/-- Calls the worker that waits for a delivery when there is one. -/
def alert (b : Broker.State) (now : Turn) : Shift → Shift
  | .working sender crew request leave => .working sender (crew.alert b now) request leave
  | shift => shift

def stop (ending : Ending) (now : Turn) : Shift → Shift
  | .arriving sender turn _ => .arriving sender turn true
  | .working sender crew request leave =>
      match ending with
      | .request => .working sender crew (request.or (some now)) leave
      | .shutdown => goOn sender (crew.stop now) none leave now
  | .over sender outcome => .over sender outcome

/-- Closes the consumer of a run, which does nothing before the run has connected it. -/
def closeConsumer (b : Broker.State) : Shift → Shift × Broker.State
  | .working sender crew request leave =>
      let (consumer, b) := crew.consumer.close b
      (.working sender { crew with consumer } request leave, b)
  | shift => (shift, b)

/-- When the jobs in hand are finished, or a given time if that is later. -/
def lastDeadline (time : Nat) : Shift → Nat
  | .working _ crew _ _ => crew.lastDeadline time
  | _ => time

/-- How many workers a run has, and how many refusals it may see. -/
def bustle : Shift → Nat
  | .arriving sender _ _ => sender.settings.workers.toNat + sender.target.patience + 1
  | .working _ crew _ _ =>
      crew.pool.free + crew.pool.jobs.length + crew.target.patience + 1
  | .over _ _ => 0

end Shift

end Almanac.Relay
