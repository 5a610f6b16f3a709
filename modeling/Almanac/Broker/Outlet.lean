import Almanac.Broker.Basic
import Almanac.Event.Notification

/-! Outlets: publishing ends that can be set to misbehave, to rehearse a target's failures. -/

namespace Almanac.Broker

/-- Refuses payloads whose notification has the title, as many times. Without a title it refuses
undecodable payloads too. -/
structure Balk where
  title : String
  times : Nat
  deriving DecidableEq, Repr

/-- Whether a payload is one of those refused. -/
def Balk.concerns (k : Balk) (payload : List UInt8) : Bool :=
  match Notification.decode payload with
  | .ok n => n.title = k.title
  | .error _ => k.title.isEmpty

/-- A producer, what it still refuses, and whether closing it fails. -/
structure Outlet where
  producer : Producer
  balk : Balk := ⟨"", 0⟩
  closeFails : Bool := false
  deriving DecidableEq, Repr

namespace Outlet

def connect (o : Outlet) (b : State) : Except QueueError (Outlet × State) :=
  (o.producer.connect b).map fun (producer, b) => ({ o with producer }, b)

/-- Publishes a payload, unless it is refused. -/
def publish (o : Outlet) (b : State) (payload : List UInt8)
    : Except QueueError Unit × Outlet × State :=
  if 0 < o.balk.times ∧ o.balk.concerns payload then
    (.error (.publish "broker rejected message"),
      { o with balk := { o.balk with times := o.balk.times - 1 } }, b)
  else
    match o.producer.publish b payload with
    | .ok b => (.ok (), o, b)
    | .error e => (.error e, o, b)

/-- Closes the producer, unless that fails. -/
def close (o : Outlet) : Except QueueError Unit × Outlet :=
  if o.closeFails then (.error (.connection "close refused"), o)
  else (.ok (), { o with producer := o.producer.close })

end Outlet

end Almanac.Broker
