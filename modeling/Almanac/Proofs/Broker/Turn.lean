import Almanac.Proofs.Broker.Conservation

/-! What one act makes of a broker and its clients, in one place.
An act is refused, or it changes what the cases here say, under the guards they name.
-/

namespace Almanac.Broker

namespace State

/-- A session for a consumer, under the next number, with all its slots free. -/
def openSession (b : State) (slots : Nat) : State :=
  { b with sessions := b.sessions ++ [.start (b.sessions.length + 1) slots] }

/-- A message of a queue in the hands of a session's poll. -/
def handOver (b : State) (name : String) (q : Queue) (session : Nat) : State :=
  (b.modifyQueue name fun _ => q).modifySession session Session.deliver

/-- A queue after a settlement, and the session whose slot is free again. -/
def settleAt (b : State) (name : String) (q : Queue) (session : Nat) : State :=
  (b.modifyQueue name fun _ => q).modifySession session Session.release

end State

namespace Market

/-- What an act makes of a broker and its clients. -/
inductive Turn (m : Market) : MarketAct → Market → Prop where
  /-- It is refused, or there is nothing to do. -/
  | idle {act : MarketAct} : Turn m act m
  | addProducer {settings : Settings}
    : Turn m (.client (.addProducer settings)) { m with producers := m.producers ++ [{ settings }] }
  | addConsumer {settings : Settings}
    : Turn m (.client (.addConsumer settings))
        { m with
          broker := { m.broker with lastConsumer := m.broker.lastConsumer + 1 }
          consumers :=
            m.consumers ++ [{ settings, number := m.broker.lastConsumer + 1 }] }
  | connectProducer {place : Nat} {p : Producer} {broker : State}
    (known : m.producers[place]? = some p) (fresh : p.connected = false)
    (declared : m.broker.declare p.settings = .ok broker)
    : Turn m (.client (.connectProducer place))
        { m with broker, producers := m.producers.set place { p with connected := true } }
  | publish {place : Nat} {body : List UInt8} {p : Producer} {broker : State}
    (known : m.producers[place]? = some p) (connected : p.connected)
    (routed : m.broker.route p.settings.exchange p.settings.key body = .ok broker)
    : Turn m (.client (.publish place body)) (m.onBroker broker)
  | closeProducer {place : Nat} {p : Producer} (known : m.producers[place]? = some p)
    : Turn m (.client (.closeProducer place)) { m with producers := m.producers.set place p.close }
  | connectConsumer {place : Nat} {c : Consumer} {broker : State}
    (known : m.consumers[place]? = some c) (ended : c.session = none)
    (declared : m.broker.declare c.settings = .ok broker)
    : Turn m (.client (.connectConsumer place))
        { m with
          broker := broker.openSession c.settings.prefetch.toNat
          consumers :=
            m.consumers.set place { c with session := some (broker.sessions.length + 1) }
          streams := m.streams ++ [(place, broker.sessions.length + 1)] }
  /-- A consumer that is connected opens one more stream in its session. -/
  | openStream {place session : Nat} {c : Consumer} (known : m.consumers[place]? = some c)
    (connected : c.session = some session)
    : Turn m (.client (.connectConsumer place))
        { m with streams := m.streams ++ [(place, session)] }
  | poll {place session : Nat} {s polled : Session} (opened : (place, session) ∈ m.streams)
    (found : m.broker.session? session = some s) (asked : s.poll? = some polled)
    : Turn m (.client (.poll place session))
        (m.onBroker (m.broker.modifySession session fun _ => polled))
  | giveUp {place session : Nat} (waiting : m.isPolled place session)
    : Turn m (.client (.giveUp place session))
        (m.onBroker (m.broker.modifySession session Session.giveUp))
  | purge {place session : Nat} {c : Consumer} (known : m.consumers[place]? = some c)
    (connected : c.session = some session)
    : Turn m (.client (.purge place))
        (m.onBroker (m.broker.modifyQueue c.settings.queue Queue.purge))
  | leave {place session : Nat} {c : Consumer} (known : m.consumers[place]? = some c)
    (connected : c.session = some session)
    : Turn m (.client (.leave place))
        { m with
          consumers := m.consumers.set place { c with session := none }
          closing := (c.settings.queue, c.number) :: m.closing }
  | handBack {queue : String} {consumer : Nat} (begun : (queue, consumer) ∈ m.closing)
    : Turn m (.client (.handBack queue consumer))
        { m with
          broker := m.broker.returnAll queue consumer
          closing := m.closing.erase (queue, consumer) }
  | receive {place session : Nat} {c : Consumer} {q rest : Queue} {p : Pending}
    (waiting : m.isPolled place session) (known : m.consumers[place]? = some c)
    (declared : m.broker.queue? c.settings.queue = some q)
    (taken : q.take? c.number session = some (p, rest))
    : Turn m (.receive place session)
        (m.onBroker (m.broker.handOver c.settings.queue rest session))
  | ack {d : Delivery} {q : Queue} {p : Pending} (declared : m.broker.queue? d.queue = some q)
    (held : q.pending? d.tag = some p)
    : Turn m (.ack d) (m.onBroker (m.broker.settleAt d.queue (q.settled d.tag false) p.session))
  | nack {d : Delivery} {requeue : Bool} {q : Queue} {p : Pending}
    (declared : m.broker.queue? d.queue = some q) (held : q.pending? d.tag = some p)
    : Turn m (.nack d requeue)
        (m.onBroker (m.broker.settleAt d.queue (q.settled d.tag requeue) p.session))

variable {m after : Market} {act : MarketAct}

-------------------------------------------------------------------------------
-- One lemma for each kind of act
-------------------------------------------------------------------------------

theorem turn_orSame {ε α : Type} {outcome : Except ε α} {next : α → Market}
    (each : ∀ result, outcome = .ok result → m.Turn act (next result))
    : m.Turn act (m.orSame (outcome.map next)) := by
  cases outcome with
  | error e => exact .idle
  | ok result => exact each result rfl

theorem turn_asProducer {place : Nat} {next : Producer → Market}
    (each : ∀ p, m.producers[place]? = some p → m.Turn act (next p))
    : m.Turn act (m.asProducer place next) := by
  unfold asProducer
  cases known : m.producers[place]? with
  | none => exact .idle
  | some p => exact each p known

theorem turn_asConsumer {place : Nat} {next : Consumer → Market}
    (each : ∀ c, m.consumers[place]? = some c → m.Turn act (next c))
    : m.Turn act (m.asConsumer place next) := by
  unfold asConsumer
  cases known : m.consumers[place]? with
  | none => exact .idle
  | some c => exact each c known

theorem set_of_getElem? {α : Type} {l : List α} {place : Nat} {a : α} (known : l[place]? = some a)
    : l.set place a = l := by
  obtain ⟨inside, rfl⟩ := List.getElem?_eq_some_iff.mp known
  exact List.set_getElem_self inside

theorem turn_connectProducer {place : Nat} {p next : Producer} {broker : State}
    (known : m.producers[place]? = some p) (outcome : p.connect m.broker = .ok (next, broker))
    : m.Turn (.client (.connectProducer place))
        { m with broker, producers := m.producers.set place next } := by
  unfold Producer.connect at outcome
  split at outcome
  · cases outcome
    rw [set_of_getElem? known]
    exact .idle
  · rename_i fresh
    cases declared : m.broker.declare p.settings with
    | error e => simp [declared, Except.map] at outcome
    | ok middle =>
        simp only [declared, Except.map, Except.ok.injEq, Prod.mk.injEq] at outcome
        obtain ⟨rfl, rfl⟩ := outcome
        exact .connectProducer known (by simpa using fresh) declared

theorem turn_connectConsumer {place : Nat} {c next : Consumer} {broker : State}
    (known : m.consumers[place]? = some c) (outcome : c.connect m.broker = .ok (next, broker))
    : m.Turn (.client (.connectConsumer place))
        { m with
          broker
          consumers := m.consumers.set place next
          streams := m.streams ++ next.session.toList.map (place, ·) } := by
  unfold Consumer.connect at outcome
  split at outcome
  · rename_i session connected
    cases outcome
    rw [set_of_getElem? known, connected]
    exact .openStream known connected
  · rename_i ended
    cases declared : m.broker.declare c.settings with
    | error e => simp [declared, Except.map] at outcome
    | ok middle =>
        simp only [declared, Except.map, Except.ok.injEq, Prod.mk.injEq] at outcome
        obtain ⟨rfl, rfl⟩ := outcome
        exact .connectConsumer known ended declared

theorem turn_poll (place session : Nat)
    : m.Turn (.client (.poll place session)) (m.serve (.poll place session)) := by
  simp only [serve, State.poll?]
  split
  · rename_i opened
    cases found : m.broker.session? session with
    | none => exact .idle
    | some s =>
        cases asked : s.poll? with
        | none => simpa [asked] using .idle
        | some polled => simpa [asked] using .poll opened found asked
  · exact .idle

/-- Every call of a client is a turn, one case per call; a refused one is idle. -/
theorem turn_serve (m : Market) (act : ClientAct) : m.Turn (.client act) (m.serve act) := by
  cases act with
  | addProducer settings => exact .addProducer
  | addConsumer settings => exact .addConsumer
  | connectProducer place =>
      apply turn_asProducer
      intro p known
      exact turn_orSame fun _ outcome => turn_connectProducer known outcome
  | publish place body =>
      apply turn_asProducer
      intro p known
      apply turn_orSame
      intro broker outcome
      unfold Producer.publish at outcome
      split at outcome
      · exact .publish known ‹_› outcome
      · cases outcome
  | closeProducer place => exact turn_asProducer fun p known => .closeProducer known
  | connectConsumer place =>
      apply turn_asConsumer
      intro c known
      exact turn_orSame fun _ outcome => turn_connectConsumer known outcome
  | poll place session => exact turn_poll place session
  | giveUp place session =>
      simp only [serve]
      split
      · exact .giveUp ‹_›
      · exact .idle
  | purge place =>
      apply turn_asConsumer
      intro c known
      apply turn_orSame
      intro result outcome
      unfold Consumer.purge at outcome
      split at outcome
      · cases outcome
      · cases outcome
        exact .purge known ‹_›
  | leave place =>
      apply turn_asConsumer
      intro c known
      split
      · rename_i connected
        obtain ⟨session, connected⟩ := Option.isSome_iff_exists.mp connected
        exact .leave known connected
      · exact .idle
  | handBack queue consumer =>
      simp only [serve]
      split
      · exact .handBack ‹_›
      · exact .idle

/-- A settlement that succeeds removes a pending delivery and releases its slot. -/
theorem of_settle {b settled : State} {queue : String} {tag : Nat} {requeue : Bool}
    (outcome : b.settle queue tag requeue = .ok settled)
    : ∃ q p, b.queue? queue = some q ∧ q.pending? tag = some p
        ∧ settled = b.settleAt queue (q.settled tag requeue) p.session := by
  unfold State.settle at outcome
  cases declared : b.queue? queue with
  | none => simp [declared] at outcome
  | some q =>
      cases held : q.pending? tag with
      | none => simp [declared, Queue.settle, held, Except.map] at outcome
      | some p =>
          refine ⟨q, p, rfl, held, ?_⟩
          simpa [declared, Queue.settle, held, Except.map, Queue.settled, State.settleAt]
            using outcome.symm

/-- A delivery is a turn, or idle where nobody waits or nothing is ready. -/
theorem turn_receive (m : Market) (place session : Nat)
    : m.Turn (.receive place session) (m.step (.receive place session)) := by
  simp only [step, receive?]
  split
  · rename_i waiting
    cases known : m.consumers[place]? with
    | none => exact .idle
    | some c =>
        cases declared : m.broker.queue? c.settings.queue with
        | none => simpa [Consumer.receive?, declared] using .idle
        | some q =>
            cases taken : q.take? c.number session with
            | none => simpa [Consumer.receive?, declared, taken] using .idle
            | some result =>
                simpa [Consumer.receive?, declared, taken]
                  using .receive waiting known declared taken
  · exact .idle

/-- Every act is one of these turns, by cases on the act. -/
theorem turn_step (m : Market) (act : MarketAct) : m.Turn act (m.step act) := by
  cases act with
  | client act => exact m.turn_serve act
  | receive place session => exact m.turn_receive place session
  | ack d =>
      apply turn_orSame
      intro broker outcome
      obtain ⟨q, p, declared, held, rfl⟩ := of_settle outcome
      exact .ack declared held
  | nack d requeue =>
      apply turn_orSame
      intro broker outcome
      obtain ⟨q, p, declared, held, rfl⟩ := of_settle outcome
      exact .nack declared held

-------------------------------------------------------------------------------
-- The moves of an act
-------------------------------------------------------------------------------

variable {name : String} {move : Move}

/-- Clients publish, purge, and return what a closed consumer holds. -/
theorem of_mem_moves {act : ClientAct} (member : move ∈ m.moves name act)
    : (∃ body, move = .push body) ∨ move = .purge
      ∨ ∃ consumer, move = .returnAll consumer ∧ act = .handBack name consumer := by
  cases act with
  | publish place body =>
      simp only [moves] at member
      cases known : m.producers[place]? with
      | none => simp [known] at member
      | some p =>
          rw [known] at member
          exact .inl ⟨body, Producer.push_of_moves member⟩
  | purge place =>
      simp only [moves] at member
      cases known : m.consumers[place]? with
      | none => simp [known] at member
      | some c =>
          rw [known, Option.elim] at member
          split at member
          · exact .inr (.inl (List.mem_singleton.mp member))
          · cases member
  | handBack queue consumer =>
      simp only [moves] at member
      split at member
      · rename_i here
        exact .inr (.inr ⟨consumer, List.mem_singleton.mp member, by rw [here.2]⟩)
      · cases member
  | _ => cases member

/-- A stream of a consumer takes under the consumer's number, for its session. -/
theorem of_mem_takeMoves {place session : Nat} (member : move ∈ m.takeMoves name place session)
    : ∃ c, m.consumers[place]? = some c ∧ move = .take c.number session := by
  simp only [takeMoves] at member
  cases known : m.consumers[place]? with
  | none => simp [known] at member
  | some c =>
      rw [known, Option.elim] at member
      split at member
      · exact ⟨c, rfl, List.mem_singleton.mp member⟩
      · cases member

-------------------------------------------------------------------------------
-- Runs
-------------------------------------------------------------------------------

theorem run_concat (acts : List MarketAct) (act : MarketAct)
    : run {} (acts ++ [act]) = (run {} acts).step act := by
  simp [run]

theorem run_append (m : Market) (acts more : List MarketAct)
    : m.run (acts ++ more) = (m.run acts).run more :=
  List.foldl_append

/-- What every turn keeps is kept by a whole run, by induction on the acts. -/
theorem of_turns {Kept : Market → Prop}
    (each : ∀ {m after : Market} {act : MarketAct}, Kept m → m.Turn act after → Kept after)
    (start : Kept m) (acts : List MarketAct)
    : Kept (m.run acts) := by
  induction acts generalizing m with
  | nil => exact start
  | cons act acts ih => exact ih (each start (m.turn_step act))

end Market

end Almanac.Broker
