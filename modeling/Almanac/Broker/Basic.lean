import Almanac.Broker.Queue
import Almanac.Broker.Session
import Almanac.Broker.Settings
import Almanac.Broker.Topic

/-! The broker: exchanges that route messages to queues by their bindings, and the producers and
consumers that use them.
-/

namespace Almanac.Broker

/-- A queue bound to an exchange by a key. -/
structure Binding where
  key : String
  queue : String
  deriving DecidableEq, Repr

/-- An exchange: its name, its kind and its bindings. -/
structure Exchange where
  name : String
  kind : ExchangeKind
  bindings : List Binding
  deriving DecidableEq, Repr

/-- Whether a binding of an exchange takes messages with a routing key. -/
def Exchange.takes (kind : ExchangeKind) (b : Binding) (key : String) : Bool :=
  match kind with
  | .fanout => true
  | .topic => Topic.fits b.key key
  | .direct | .custom _ => b.key = key

/-- The queues that an exchange routes a key to, each once. -/
def Exchange.targets (x : Exchange) (key : String) : List String :=
  ((x.bindings.filter (takes x.kind · key)).map Binding.queue).eraseDups

/-- Exchanges and queues by name, the sessions of consumers, and how many consumers there were. -/
structure State where
  exchanges : List Exchange := []
  queues : List (String × Queue) := []
  sessions : List Session := []
  lastConsumer : Nat := 0
  deriving DecidableEq, Repr

namespace State

def exchange? (b : State) (name : String) : Option Exchange :=
  b.exchanges.find? (·.name = name)

def queue? (b : State) (name : String) : Option Queue :=
  b.queues.lookup name

/-- Applies a change to the queue of a name. -/
def modifyQueue (b : State) (name : String) (f : Queue → Queue) : State :=
  { b with queues := b.queues.map fun entry => if entry.1 = name then (name, f entry.2) else entry }

def session? (b : State) (number : Nat) : Option Session :=
  b.sessions.find? (·.number = number)

/-- Applies a change to the session of a number. -/
def modifySession (b : State) (number : Nat) (f : Session → Session) : State :=
  { b with sessions := b.sessions.map fun s => if s.number = number then f s else s }

def readyCount (b : State) (name : String) : Nat :=
  ((b.queue? name).map (·.ready.length)).getD 0

/-- The messages on all queues, ready or pending. -/
def size (b : State) : Nat :=
  b.queues.foldl (fun n (_, q) => n + q.ready.length + q.pending.length) 0

/-- The deliveries of a queue that are not settled. -/
def pendingCount (b : State) (name : String) : Nat :=
  ((b.queue? name).map (·.pending.length)).getD 0

/-- Adds a binding that an exchange does not have yet. -/
def bind (x : Exchange) (b : Binding) : Exchange :=
  if b ∈ x.bindings then x else { x with bindings := x.bindings ++ [b] }

/-- Declares an exchange with a binding. An exchange keeps the kind that it was declared with. -/
def declareExchange (b : State) (s : Settings) : Except QueueError State :=
  match b.exchange? s.exchange with
  | none =>
      .ok { b with exchanges := b.exchanges ++ [⟨s.exchange, s.kind, [⟨s.key, s.queue⟩]⟩] }
  | some x =>
      if x.kind = s.kind then
        .ok { b with
          exchanges := b.exchanges.map fun y =>
            if y.name = s.exchange then bind y ⟨s.key, s.queue⟩ else y }
      else
        .error (.channel s!"exchange '{s.exchange}' already declared as {x.kind.name}")

/-- Declares a queue unless there is one of that name. -/
def declareQueue (b : State) (name : String) : State :=
  match b.queue? name with
  | some _ => b
  | none => { b with queues := b.queues ++ [(name, {})] }

/-- Declares the exchange, the queue and the binding of a channel. -/
def declare (b : State) (s : Settings) : Except QueueError State := do
  s.validate
  let b ← b.declareExchange s
  .ok (b.declareQueue s.queue)

/-- Publishes a message: one fresh copy goes to each queue that the exchange routes its key to. -/
def route (b : State) (exchange key : String) (body : List UInt8) : Except QueueError State :=
  match b.exchange? exchange with
  | none => .error (.publish s!"exchange '{exchange}' not declared")
  | some x =>
      .ok ((x.targets key).foldl (fun b name => b.modifyQueue name (·.push body)) b)

/-- Settles a delivery of a queue, which frees its slot. -/
def settle (b : State) (queue : String) (tag : Nat) (requeue : Bool) : Except QueueError State :=
  match b.queue? queue with
  | none => .error (.ack s!"unknown delivery tag {tag}")
  | some q =>
      (q.settle tag requeue).map fun (delivered, q) =>
        (b.modifyQueue queue fun _ => q).modifySession delivered.session Session.release

/-- Returns everything that a consumer holds of a queue, which frees the slots. -/
def returnAll (b : State) (queue : String) (consumer : Nat) : State :=
  match b.queue? queue with
  | none => b
  | some q =>
      (q.heldBy consumer).foldl (fun b held => b.modifySession held.session Session.release)
        (b.modifyQueue queue fun _ => q.returnAll consumer)

/-- A poll of a session begins to wait for a message, when there is a slot for it. -/
def poll? (b : State) (session : Nat) : Option State :=
  ((b.session? session).bind Session.poll?).map fun s => b.modifySession session fun _ => s

end State

/-- The publishing end of a channel. -/
structure Producer where
  settings : Settings
  connected : Bool := false
  deriving DecidableEq, Repr

namespace Producer

/-- Declares the channel, once. -/
def connect (p : Producer) (b : State) : Except QueueError (Producer × State) :=
  if p.connected then .ok (p, b)
  else (b.declare p.settings).map fun b => ({ p with connected := true }, b)

/-- Publishes a message under the channel's routing key. -/
def publish (p : Producer) (b : State) (body : List UInt8) : Except QueueError State :=
  if p.connected then b.route p.settings.exchange p.settings.key body else .error .notConnected

/-- Ends the use of the channel; what was declared stays. -/
def close (p : Producer) : Producer :=
  { p with connected := false }

end Producer

/-- The receiving end of a channel: its number, and the number of its session while connected. -/
structure Consumer where
  settings : Settings
  number : Nat
  session : Option Nat := none
  deriving DecidableEq, Repr

/-- A message in a consumer's hands. -/
structure Delivery where
  queue : String
  tag : Nat
  redelivered : Bool
  body : List UInt8
  deriving DecidableEq, Repr

namespace Consumer

/-- A new consumer under the next number. -/
def create (b : State) (settings : Settings) : Consumer × State :=
  ({ settings, number := b.lastConsumer + 1 }, { b with lastConsumer := b.lastConsumer + 1 })

/-- Declares the channel and opens a session, once. -/
def connect (c : Consumer) (b : State) : Except QueueError (Consumer × State) :=
  match c.session with
  | some _ => .ok (c, b)
  | none =>
      (b.declare c.settings).map fun b =>
        let number := b.sessions.length + 1
        ({ c with session := some number },
          { b with sessions := b.sessions ++ [.start number c.settings.prefetch.toNat] })

/-- A poll that waits takes the next message, when there is one. -/
def receive? (c : Consumer) (b : State) (session : Nat) : Option (Delivery × State) :=
  (b.queue? c.settings.queue).bind fun q =>
    (q.take? c.number session).map fun (p, q) =>
      ({ queue := c.settings.queue
         tag := p.tag
         redelivered := p.message.redelivered
         body := p.message.body },
        (b.modifyQueue c.settings.queue fun _ => q).modifySession session Session.deliver)

/-- Takes the next message of a session, when there are a slot and a message. Otherwise no poll
stays behind. -/
def take? (c : Consumer) (b : State) (session : Nat) : Option (Delivery × State) :=
  (b.poll? session).bind fun b => c.receive? b session

/-- Removes the ready messages of the queue, and counts them in 32 bits. -/
def purge (c : Consumer) (b : State) : Except QueueError (Nat × State) :=
  match c.session with
  | none => .error .notConnected
  | some _ =>
      .ok (b.readyCount c.settings.queue % 4294967296,
        b.modifyQueue c.settings.queue Queue.purge)

/-- Ends the session; what the consumer holds returns to its queue. -/
def close (c : Consumer) (b : State) : Consumer × State :=
  match c.session with
  | none => (c, b)
  | some _ =>
      ({ c with session := none }, b.returnAll c.settings.queue c.number)

end Consumer

/-- Acknowledges a delivery: its message is done with. -/
def Delivery.ack (d : Delivery) (b : State) : Except QueueError State :=
  b.settle d.queue d.tag false

/-- Refuses a delivery: its message is dropped or returned to the front of the queue. -/
def Delivery.nack (d : Delivery) (b : State) (requeue : Bool) : Except QueueError State :=
  b.settle d.queue d.tag requeue

def Delivery.text (d : Delivery) : String :=
  "Delivery \x7b delivery_tag: " ++ toString d.tag ++ ", redelivered: " ++ toString d.redelivered
    ++ ", body_len: " ++ toString d.body.length ++ " \x7d"

end Almanac.Broker
