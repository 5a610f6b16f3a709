import Almanac.Broker.Basic

/-! Taking deliveries one after the other and settling each in the same way. -/

namespace Almanac.Broker

/-- What becomes of each delivery. -/
inductive Manner where
  | acknowledge
  | drop
  | requeue
  /-- It is kept, not settled. -/
  | hold
  deriving DecidableEq, Repr

/-- Settles a delivery in a manner; nothing comes of one that is kept. -/
def Manner.settle (m : Manner) (b : State) (d : Delivery)
    : Option (Except QueueError Unit) × State :=
  let outcome (after : Except QueueError State) : Option (Except QueueError Unit) × State :=
    match after with
    | .ok b => (some (.ok ()), b)
    | .error e => (some (.error e), b)
  match m with
  | .acknowledge => outcome (d.ack b)
  | .drop => outcome (d.nack b false)
  | .requeue => outcome (d.nack b true)
  | .hold => (none, b)

/-- A delivery and what came of settling it. -/
abbrev Taken := Delivery × Option (Except QueueError Unit)

/-- Takes at most `count` deliveries of a session and settles each. -/
def Consumer.drain (c : Consumer) (session : Nat) (m : Manner)
    : (count : Nat) → State → List Taken × State
  | 0, b => ([], b)
  | count + 1, b =>
      match c.take? b session with
      | none => ([], b)
      | some (d, b) =>
          let (settled, b) := m.settle b d
          let (taken, b) := c.drain session m count b
          ((d, settled) :: taken, b)

/-- Consumes until nothing more can be delivered or `limit` deliveries were made. Then the
consumption is ended, or the consumer closed, which ends the deliveries unasked. -/
def Consumer.consume (c : Consumer) (b : State) (m : Manner) (limit : Option Nat) (close : Bool)
    : Except QueueError Unit × List Taken × Consumer × State :=
  match c.session with
  | none => (.error .notConnected, [], c, b)
  | some session =>
      let count := limit.getD (b.readyCount c.settings.queue)
      let (taken, b) := c.drain session m count b
      if close ∧ limit ≠ some taken.length then
        let (c, b) := c.close b
        (.error .streamClosed, taken, c, b)
      else
        (.ok (), taken, c, b)

end Almanac.Broker
