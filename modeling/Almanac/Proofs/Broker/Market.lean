import Almanac.Proofs.Broker.Effect

/-! A broker and its clients, acting in any order.
Each act is one atomic step. Closing a consumer takes two of them, and a stream of deliveries
outlives the session it was opened in, so others may act in between and streams may be asked again.
-/

namespace Almanac.Broker

/-- A broker with those who use it. A stream names a consumer by its place and the session it was
opened in. `closing` holds the consumers, with their queues, that have ended their session and not
returned what they hold. -/
structure Market where
  broker : State := {}
  producers : List Producer := []
  consumers : List Consumer := []
  streams : List (Nat × Nat) := []
  closing : List (String × Nat) := []

/-- What clients do, apart from taking deliveries and settling them. They are named by place. -/
inductive ClientAct where
  | addProducer (settings : Settings)
  | addConsumer (settings : Settings)
  | connectProducer (place : Nat)
  | publish (place : Nat) (body : List UInt8)
  | closeProducer (place : Nat)
  | connectConsumer (place : Nat)
  | poll (place session : Nat)
  | giveUp (place session : Nat)
  | purge (place : Nat)
  /-- The first step of closing a consumer: it has no session any more. -/
  | leave (place : Nat)
  /-- The second step: what it holds returns to its queue. -/
  | handBack (queue : String) (consumer : Nat)

namespace Market

def onBroker (m : Market) (broker : State) : Market :=
  { m with broker }

/-- The clients after something that leaves them as they are when it fails. -/
def orSame (m : Market) {ε : Type} (after : Except ε Market) : Market :=
  match after with
  | .ok m => m
  | .error _ => m

/-- Whether a poll of a stream waits for a message. -/
def isPolled (m : Market) (place session : Nat) : Bool :=
  decide ((place, session) ∈ m.streams) && (m.broker.session? session).any (0 < ·.polls)

def asProducer (m : Market) (place : Nat) (act : Producer → Market) : Market :=
  (m.producers[place]?).elim m act

def asConsumer (m : Market) (place : Nat) (act : Consumer → Market) : Market :=
  (m.consumers[place]?).elim m act

/-- A client acts. What is refused, or cannot be done, changes nothing. -/
def serve (m : Market) : ClientAct → Market
  | .addProducer settings => { m with producers := m.producers ++ [{ settings }] }
  | .addConsumer settings =>
      let (c, broker) := Consumer.create m.broker settings
      { m with broker, consumers := m.consumers ++ [c] }
  | .connectProducer place =>
      m.asProducer place fun p =>
        m.orSame ((p.connect m.broker).map fun (p, broker) =>
          { m with broker, producers := m.producers.set place p })
  | .publish place body =>
      m.asProducer place fun p => m.orSame ((p.publish m.broker body).map m.onBroker)
  | .closeProducer place =>
      m.asProducer place fun p => { m with producers := m.producers.set place p.close }
  | .connectConsumer place =>
      m.asConsumer place fun c =>
        m.orSame ((c.connect m.broker).map fun (c, broker) =>
          { m with
            broker
            consumers := m.consumers.set place c
            streams := m.streams ++ c.session.toList.map (place, ·) })
  | .poll place session =>
      if (place, session) ∈ m.streams then ((m.broker.poll? session).map m.onBroker).getD m else m
  | .giveUp place session =>
      if m.isPolled place session then m.onBroker (m.broker.modifySession session Session.giveUp)
      else m
  | .purge place =>
      m.asConsumer place fun c =>
        m.orSame ((c.purge m.broker).map fun (_, broker) => m.onBroker broker)
  | .leave place =>
      m.asConsumer place fun c =>
        if c.session.isSome then
          { m with
            consumers := m.consumers.set place { c with session := none }
            closing := (c.settings.queue, c.number) :: m.closing }
        else m
  | .handBack queue consumer =>
      if (queue, consumer) ∈ m.closing then
        { m with
          broker := m.broker.returnAll queue consumer
          closing := m.closing.erase (queue, consumer) }
      else m

/-- Both steps of closing, one after the other, close a consumer at once. -/
theorem serve_leave_handBack (m : Market) (place : Nat) (c : Consumer)
    (known : m.consumers[place]? = some c) (connected : c.session.isSome)
    : (m.serve (.leave place)).serve (.handBack c.settings.queue c.number)
      = { m with
          broker := (c.close m.broker).2
          consumers := m.consumers.set place (c.close m.broker).1 } := by
  obtain ⟨session, present⟩ := Option.isSome_iff_exists.mp connected
  simp [serve, asConsumer, known, Consumer.close, present]

/-- The moves of a client's act at a queue. -/
def moves (m : Market) (name : String) : ClientAct → List Move
  | .publish place body =>
      (m.producers[place]?).elim [] fun p => p.moves m.broker body name
  | .purge place =>
      (m.consumers[place]?).elim [] fun c =>
        if c.session.isSome ∧ name = c.settings.queue then [.purge] else []
  | .handBack queue consumer =>
      if (queue, consumer) ∈ m.closing ∧ name = queue then [.returnAll consumer] else []
  | _ => []

theorem queueOf_connectProducer {p after : Producer} {b declared : State}
    (connected : p.connect b = .ok (after, declared)) (name : String)
    : declared.queueOf name = b.queueOf name := by
  unfold Producer.connect at connected
  split at connected
  · cases connected
    rfl
  · cases outcome : b.declare p.settings with
    | error e => simp [outcome, Except.map] at connected
    | ok middle =>
        obtain ⟨-, rfl⟩ : _ ∧ middle = declared := by
          simpa [outcome, Except.map] using connected
        exact State.queueOf_declare outcome name

theorem queueOf_connectConsumer {c after : Consumer} {b declared : State}
    (connected : c.connect b = .ok (after, declared)) (name : String)
    : declared.queueOf name = b.queueOf name := by
  unfold Consumer.connect at connected
  split at connected
  · cases connected
    rfl
  · cases outcome : b.declare c.settings with
    | error e => simp [outcome, Except.map] at connected
    | ok middle =>
        simp only [outcome, Except.map, Except.ok.injEq, Prod.mk.injEq] at connected
        rw [← State.queueOf_declare outcome name, ← connected.2]
        rfl

section Steps

variable {m : Market} {name : String}

theorem queueOf_orSame {ε α : Type} {outcome : Except ε α} {after : α → Market}
    (kept
      : ∀ result, outcome = .ok result →
          (after result).broker.queueOf name = m.broker.queueOf name)
    : (m.orSame (outcome.map after)).broker.queueOf name = m.broker.queueOf name := by
  cases outcome with
  | error e => rfl
  | ok result => exact kept result rfl

/-- An act of a producer moves what it does for each producer that there is. -/
theorem queueOf_asProducer {place : Nat} {act : Producer → Market} {moved : Producer → List Move}
    (each : ∀ p, (act p).broker.queueOf name = (m.broker.queueOf name).afterAll (moved p))
    : (m.asProducer place act).broker.queueOf name
      = (m.broker.queueOf name).afterAll ((m.producers[place]?).elim [] moved) := by
  unfold asProducer
  cases m.producers[place]? with
  | none => rfl
  | some p => exact each p

/-- An act of a consumer moves what it does for each consumer that there is. -/
theorem queueOf_asConsumer {place : Nat} {act : Consumer → Market} {moved : Consumer → List Move}
    (each : ∀ c, (act c).broker.queueOf name = (m.broker.queueOf name).afterAll (moved c))
    : (m.asConsumer place act).broker.queueOf name
      = (m.broker.queueOf name).afterAll ((m.consumers[place]?).elim [] moved) := by
  unfold asConsumer
  cases m.consumers[place]? with
  | none => rfl
  | some c => exact each c

/-- An act that every producer leaves the queue alone in does so without one, too. -/
theorem queueOf_asProducer_of_same {place : Nat} {act : Producer → Market}
    (each : ∀ p, (act p).broker.queueOf name = m.broker.queueOf name)
    : (m.asProducer place act).broker.queueOf name = m.broker.queueOf name := by
  unfold asProducer
  cases m.producers[place]? with
  | none => rfl
  | some p => exact each p

/-- An act that every consumer leaves the queue alone in does so without one, too. -/
theorem queueOf_asConsumer_of_same {place : Nat} {act : Consumer → Market}
    (each : ∀ c, (act c).broker.queueOf name = m.broker.queueOf name)
    : (m.asConsumer place act).broker.queueOf name = m.broker.queueOf name := by
  unfold asConsumer
  cases m.consumers[place]? with
  | none => rfl
  | some c => exact each c

theorem queueOf_publish (m : Market) (p : Producer) (body : List UInt8) (name : String)
    : (m.orSame ((p.publish m.broker body).map m.onBroker)).broker.queueOf name
      = (m.broker.queueOf name).afterAll (p.moves m.broker body name) := by
  cases outcome : p.publish m.broker body with
  | error e => rw [Producer.moves_of_publish_error outcome name]; rfl
  | ok published => exact Producer.queueOf_publish outcome name

theorem queueOf_purge (m : Market) (c : Consumer) (name : String)
    : (m.orSame ((c.purge m.broker).map fun (_, broker) => m.onBroker broker)).broker.queueOf name
      = (m.broker.queueOf name).afterAll
          (if c.session.isSome ∧ name = c.settings.queue then [.purge] else []) := by
  cases present : c.session with
  | none => simp [Consumer.purge, present, orSame, Except.map]
  | some session =>
      by_cases same : name = c.settings.queue
      · subst same
        simp [Consumer.purge, present, orSame, Except.map, onBroker, Queue.after,
          State.queueOf_modifyQueue_self _ _ Queue.purge rfl]
      · simp [Consumer.purge, present, orSame, Except.map, onBroker, same,
          State.queueOf_modifyQueue_of_ne]

end Steps

/-- A client's act does at each queue what its moves say, by cases on the act. -/
theorem queueOf_serve (m : Market) (act : ClientAct) (name : String)
    : (m.serve act).broker.queueOf name
      = (m.broker.queueOf name).afterAll (m.moves name act) := by
  cases act with
  | addProducer settings => rfl
  | addConsumer settings => rfl
  | connectProducer place =>
      apply queueOf_asProducer_of_same
      intro p
      apply queueOf_orSame
      intro result outcome
      exact queueOf_connectProducer outcome name
  | publish place body => exact queueOf_asProducer fun p => m.queueOf_publish p body name
  | closeProducer place => exact queueOf_asProducer_of_same fun p => rfl
  | connectConsumer place =>
      apply queueOf_asConsumer_of_same
      intro c
      apply queueOf_orSame
      intro result outcome
      exact queueOf_connectConsumer outcome name
  | poll place session =>
      simp only [serve, moves, Queue.afterAll_nil]
      split
      · cases polled : m.broker.poll? session with
        | none => rfl
        | some after => exact State.queueOf_poll polled name
      · rfl
  | giveUp place session =>
      simp only [serve, moves, Queue.afterAll_nil]
      split <;> simp [onBroker]
  | purge place => exact queueOf_asConsumer fun c => m.queueOf_purge c name
  | leave place =>
      apply queueOf_asConsumer_of_same
      intro c
      split <;> rfl
  | handBack queue consumer =>
      by_cases closing : (queue, consumer) ∈ m.closing
      · by_cases same : name = queue <;>
          simp [serve, closing, moves, same, State.queueOf_returnAll, Queue.after]
      · simp [serve, closing, moves]

end Market

end Almanac.Broker
