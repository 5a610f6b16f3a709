import Almanac.Broker.Error

/-! One queue of messages.
A message is ready, or delivered and not yet settled. Settling a delivery removes the message or
returns it to the front of the queue, where it is flagged as redelivered.
-/

namespace Almanac.Broker

/-- A message: its place in the order of publication on its queue, its body, and whether it was
delivered before. -/
structure Message where
  number : Nat
  body : List UInt8
  redelivered : Bool
  deriving DecidableEq, Repr

def Message.again (m : Message) : Message :=
  { m with redelivered := true }

/-- A delivered message that is not settled: its tag, the consumer that holds it, and the session of
that consumer whose slot it takes up. -/
structure Pending where
  tag : Nat
  message : Message
  consumer : Nat
  session : Nat
  deriving DecidableEq, Repr

/-- A queue: the ready messages in order, the pending ones by increasing tag, how many messages were
published on it, and the last tag. -/
structure Queue where
  ready : List Message := []
  pending : List Pending := []
  published : Nat := 0
  lastTag : Nat := 0
  deriving DecidableEq, Repr

namespace Queue

def push (q : Queue) (body : List UInt8) : Queue :=
  { q with
    ready := q.ready ++ [⟨q.published + 1, body, false⟩]
    published := q.published + 1 }

/-- Delivers the first ready message to a consumer under the next tag. -/
def take? (q : Queue) (consumer session : Nat) : Option (Pending × Queue) :=
  match q.ready with
  | [] => none
  | message :: ready =>
      let delivered : Pending := { tag := q.lastTag + 1, message, consumer, session }
      some (delivered,
        { q with ready, pending := q.pending ++ [delivered], lastTag := q.lastTag + 1 })

def pending? (q : Queue) (tag : Nat) : Option Pending :=
  q.pending.find? (·.tag = tag)

/-- The queue without the pending message of a tag. -/
def remove (q : Queue) (tag : Nat) : Queue :=
  { q with pending := q.pending.filter (·.tag ≠ tag) }

/-- Returns messages to the front, in their order. -/
def putBack (q : Queue) (messages : List Message) : Queue :=
  { q with ready := messages.map Message.again ++ q.ready }

/-- Settles a delivery: the message is removed, or returned to the front. -/
def settle (q : Queue) (tag : Nat) (requeue : Bool) : Except QueueError (Pending × Queue) :=
  match q.pending? tag with
  | none => .error (.ack s!"unknown delivery tag {tag}")
  | some delivered =>
      let rest := q.remove tag
      .ok (delivered, if requeue then rest.putBack [delivered.message] else rest)

/-- What a consumer holds, oldest delivery first. -/
def heldBy (q : Queue) (consumer : Nat) : List Pending :=
  q.pending.filter (·.consumer = consumer)

/-- Returns everything that a consumer holds to the front, oldest delivery first. -/
def returnAll (q : Queue) (consumer : Nat) : Queue :=
  { q with pending := q.pending.filter (·.consumer ≠ consumer) }.putBack
    ((q.heldBy consumer).map Pending.message)

def purge (q : Queue) : Queue :=
  { q with ready := [] }

end Queue

end Almanac.Broker
