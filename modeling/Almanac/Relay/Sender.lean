import Almanac.Relay.Crew

/-! The sender: it connects, lets a crew work until asked to stop, and closes what it opened. -/

namespace Almanac.Relay

open Time Broker

/-- A sender: its settings, its consumer, its target, and whether it was shut down for good. -/
structure Sender where
  settings : Settings
  consumer : Consumer
  target : Target
  shutDown : Bool := false
  deriving DecidableEq, Repr

namespace Sender

/-- Connects the consumer and the target. A target that fails to connect leaves the consumer
closed. -/
def connect (s : Sender) (b : Broker.State)
    : Except SenderError Unit × Sender × Broker.State :=
  match s.consumer.connect b with
  | .error cause => (.error (.queue cause), s, b)
  | .ok (consumer, b) =>
      match s.target.connect b with
      | .ok (target, b) => (.ok (), { s with consumer, target }, b)
      | .error cause =>
          let (consumer, b) := consumer.close b
          (.error (.relay cause), { s with consumer }, b)

/-- The crew of a connected sender, whose workers begin now. After a shutdown they only leave. -/
def crew (s : Sender) (now : Turn) : Crew :=
  let pool := Pool.ofWorkers s.settings.workers.toNat now
  { consumer := s.consumer
    session := s.consumer.session.getD 0
    target := s.target
    retryDelay := s.settings.retryDelay.millis
    pool := if s.shutDown then pool.cancel else pool }

/-- Closes consumer and target after a crew has gone; a target that fails to close is let go. -/
def disband (s : Sender) (c : Crew) (b : Broker.State)
    : Except SenderError Unit × Sender × Broker.State :=
  let (consumer, b) := c.consumer.close b
  let target := c.target.close.2
  (c.pool.result.mapError .queue, { s with consumer, target }, b)

end Sender

end Almanac.Relay
