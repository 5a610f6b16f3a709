import Almanac.Proofs.Broker.Market

/-! Conservation of messages: no copy is lost or made twice, whatever is done to a broker.
Deliveries are taken and settled by anyone, in any order and any number of times.
-/

namespace Almanac.Broker

/-- What is done at a broker, deliveries included. Any delivery may be settled at any time, also
one that was settled before or was returned. -/
inductive MarketAct where
  | client (act : ClientAct)
  | receive (place session : Nat)
  | ack (d : Delivery)
  | nack (d : Delivery) (requeue : Bool)

namespace Market

-------------------------------------------------------------------------------
-- Runs
-------------------------------------------------------------------------------

/-- A poll that waits on a stream of a consumer takes the next message, when there is one. -/
def receive? (m : Market) (place session : Nat) : Option (Delivery × Market) :=
  if m.isPolled place session then
    (m.consumers[place]?).bind fun c =>
      (c.receive? m.broker session).map fun (d, broker) => (d, m.onBroker broker)
  else none

/-- One act. What is refused, or cannot be done, changes nothing. -/
def step (m : Market) : MarketAct → Market
  | .client act => m.serve act
  | .receive place session => ((m.receive? place session).map Prod.snd).getD m
  | .ack d => m.orSame ((d.ack m.broker).map m.onBroker)
  | .nack d requeue => m.orSame ((d.nack m.broker requeue).map m.onBroker)

def run (m : Market) (acts : List MarketAct) : Market :=
  acts.foldl step m

def takeMoves (m : Market) (name : String) (place session : Nat) : List Move :=
  (m.consumers[place]?).elim [] fun c =>
    if m.isPolled place session ∧ name = c.settings.queue then [.take c.number session] else []

def actMoves (m : Market) (name : String) : MarketAct → List Move
  | .client act => m.moves name act
  | .receive place session => m.takeMoves name place session
  | .ack d => if name = d.queue then [.acknowledge d.tag] else []
  | .nack d requeue => if name = d.queue then [.refuse d.tag requeue] else []

/-- What acts do to the copies on a queue, one after the other. -/
def history (m : Market) (name : String) : List MarketAct → List Happening
  | [] => []
  | act :: acts =>
      (m.broker.queueOf name).log (m.actMoves name act) ++ (m.step act).history name acts

variable {m after : Market}

theorem queueOf_receive? {place session : Nat} {d : Delivery}
    (received : m.receive? place session = some (d, after)) (name : String)
    : after.broker.queueOf name
      = (m.broker.queueOf name).afterAll (m.takeMoves name place session) := by
  unfold receive? at received
  split at received
  · rename_i polled
    obtain ⟨c, known, delivered⟩ := Option.bind_eq_some_iff.mp received
    obtain ⟨⟨_, broker⟩, taken, eq⟩ := Option.map_eq_some_iff.mp delivered
    obtain ⟨rfl, rfl⟩ := Prod.mk.inj eq
    simp only [onBroker, c.queueOf_receive taken name, takeMoves, known, Option.elim, polled,
      true_and]
    split <;> rfl
  · cases received

/-- When no delivery can be taken, the moves of taking one change nothing. -/
theorem afterAll_takeMoves_of_none {place session : Nat}
    (refused : m.receive? place session = none) (name : String)
    : (m.broker.queueOf name).afterAll (m.takeMoves name place session)
      = m.broker.queueOf name := by
  cases known : m.consumers[place]? with
  | none => simp [takeMoves, known]
  | some c =>
      by_cases here : m.isPolled place session = true ∧ name = c.settings.queue
      · obtain ⟨polled, rfl⟩ := here
        have empty : (m.broker.queueOf c.settings.queue).take? c.number session = none := by
          cases present : m.broker.queue? c.settings.queue with
          | none => simp [State.queueOf, present, Queue.take?]
          | some q =>
              simpa [receive?, polled, known, Consumer.receive?, present, State.queueOf]
                using refused
        simp [takeMoves, known, polled, Queue.after, empty]
      · simp [takeMoves, known, here]

theorem queueOf_settle (m : Market) (queue : String) (tag : Nat) (requeue : Bool)
    (name : String)
    : (m.orSame ((m.broker.settle queue tag requeue).map m.onBroker)).broker.queueOf name
      = if name = queue then (m.broker.queueOf name).settled tag requeue
        else m.broker.queueOf name := by
  cases outcome : m.broker.settle queue tag requeue with
  | ok after =>
      simpa [orSame, Except.map, onBroker] using State.queueOf_settle outcome name
  | error e =>
      by_cases same : name = queue
      · subst same
        simp [orSame, Except.map, State.settled_of_settle_error outcome]
      · simp [orSame, Except.map, same]

/-- An act does at each queue what its moves say. -/
theorem queueOf_step (m : Market) (act : MarketAct) (name : String)
    : (m.step act).broker.queueOf name
      = (m.broker.queueOf name).afterAll (m.actMoves name act) := by
  cases act with
  | client act => exact m.queueOf_serve act name
  | receive place session =>
      cases taken : m.receive? place session with
      | none => simpa [step, taken, actMoves] using (afterAll_takeMoves_of_none taken name).symm
      | some result => simpa [step, taken, actMoves] using queueOf_receive? taken name
  | ack d =>
      simp only [step, Delivery.ack, queueOf_settle, actMoves]
      split <;> rfl
  | nack d requeue =>
      simp only [step, Delivery.nack, queueOf_settle, actMoves]
      split <;> rfl

/-- The accounts of each queue balance after any acts, by induction on the acts. -/
theorem accounted_run {name : String} {log : List Happening}
    (h : (m.broker.queueOf name).Accounted log) (acts : List MarketAct)
    : ((m.run acts).broker.queueOf name).Accounted (log ++ m.history name acts) := by
  induction acts generalizing m log with
  | nil => simpa [run, history] using h
  | cons act acts ih =>
      have next := h.afterAll (m.actMoves name act)
      rw [← queueOf_step] at next
      simpa [run, history] using ih next

theorem history_append (m : Market) (name : String) (acts more : List MarketAct)
    : m.history name (acts ++ more) = m.history name acts ++ (m.run acts).history name more := by
  induction acts generalizing m with
  | nil => rfl
  | cons act acts ih => simp [history, run, ih]

/-- A delivery hands out the first ready message of its queue, under the next tag. -/
theorem ready_of_receive? {place session : Nat} {d : Delivery}
    (received : m.receive? place session = some (d, after))
    : ∃ message rest, (m.broker.queueOf d.queue).ready = message :: rest
        ∧ d.body = message.body ∧ d.redelivered = message.redelivered
        ∧ d.tag = (m.broker.queueOf d.queue).lastTag + 1
        ∧ (m.broker.queueOf d.queue).log (m.takeMoves d.queue place session)
            = [.delivered message.copy d.tag] := by
  unfold receive? at received
  split at received
  · rename_i polled
    obtain ⟨c, known, delivered⟩ := Option.bind_eq_some_iff.mp received
    obtain ⟨⟨_, broker⟩, taken, eq⟩ := Option.map_eq_some_iff.mp delivered
    obtain ⟨rfl, -⟩ := Prod.mk.inj eq
    obtain ⟨q, declared, found⟩ := Option.bind_eq_some_iff.mp taken
    obtain ⟨⟨p, rest⟩, first, eq⟩ := Option.map_eq_some_iff.mp found
    obtain ⟨rfl, -⟩ := Prod.mk.inj eq
    have same : m.broker.queueOf c.settings.queue = q := by simp [State.queueOf, declared]
    cases ready : q.ready with
    | nil => simp [Queue.take?, ready] at first
    | cons message others =>
        simp only [Queue.take?, ready, Option.some.injEq, Prod.mk.injEq] at first
        obtain ⟨rfl, -⟩ := first
        exact ⟨message, others, by rw [same, ready],
          by simp [takeMoves, known, polled, Queue.happenings, same, ready]⟩
  · cases received

/-- A delivery carries the body of the copy that it delivers, under the next tag of its queue. -/
theorem log_receive? {place session : Nat} {d : Delivery}
    (received : m.receive? place session = some (d, after))
    : d.tag = (m.broker.queueOf d.queue).lastTag + 1
      ∧ ∃ number,
          (m.broker.queueOf d.queue).log (m.takeMoves d.queue place session)
            = [.delivered ⟨number, d.body⟩ d.tag] := by
  obtain ⟨message, rest, -, body, -, next, logged⟩ := ready_of_receive? received
  exact ⟨next, message.number, by rw [logged, body]; rfl⟩

-------------------------------------------------------------------------------
-- Conservation
-------------------------------------------------------------------------------

/-- The acts that take a copy from its queue for good: an acknowledgement or a refusal of the
delivery that holds it, or a purge while it is ready. -/
inductive Removes (m : Market) (name : String) (copy : Copy) : MarketAct → Prop where
  | acknowledged {d : Delivery} {p : Pending} (queue : d.queue = name)
    (held : (m.broker.queueOf name).pending? d.tag = some p) (same : p.copy = copy)
    : Removes m name copy (.ack d)
  | dropped {d : Delivery} {p : Pending} (queue : d.queue = name)
    (held : (m.broker.queueOf name).pending? d.tag = some p) (same : p.copy = copy)
    : Removes m name copy (.nack d false)
  | purged {place : Nat} {c : Consumer} (client : m.consumers[place]? = some c)
    (connected : c.session.isSome) (queue : name = c.settings.queue)
    (ready : copy ∈ (m.broker.queueOf name).ready.map Message.copy)
    : Removes m name copy (.client (.purge place))

theorem not_removes {m : Market} {name : String} {copy : Copy} {act : MarketAct}
    (other
      : (∀ d, act ≠ .ack d) ∧ (∀ d, act ≠ .nack d false) ∧ ∀ place, act ≠ .client (.purge place))
    : ¬m.Removes name copy act := by
  intro removes
  cases removes with
  | acknowledged => exact other.1 _ rfl
  | dropped => exact other.2.1 _ rfl
  | purged => exact other.2.2 _ rfl

theorem removes_ack_iff {m : Market} {name : String} {copy : Copy} {d : Delivery}
    : m.Removes name copy (.ack d)
      ↔ name = d.queue ∧ copy ∈ (m.broker.queueOf name).exits (.acknowledge d.tag) := by
  simp only [Queue.exits, Option.mem_toList, Option.map_eq_some_iff]
  constructor
  · intro removes
    cases removes with
    | acknowledged queue held same => exact ⟨queue.symm, _, held, same⟩
  · rintro ⟨queue, p, held, same⟩
    exact .acknowledged queue.symm held same

theorem removes_nack_iff {m : Market} {name : String} {copy : Copy} {d : Delivery}
    {requeue : Bool}
    : m.Removes name copy (.nack d requeue)
      ↔ name = d.queue ∧ copy ∈ (m.broker.queueOf name).exits (.refuse d.tag requeue) := by
  cases requeue with
  | true => simpa [Queue.exits] using not_removes (m := m) (by simp)
  | false =>
      simp only [Queue.exits, Option.mem_toList, Option.map_eq_some_iff]
      constructor
      · intro removes
        cases removes with
        | dropped queue held same => exact ⟨queue.symm, _, held, same⟩
      · rintro ⟨queue, p, held, same⟩
        exact .dropped queue.symm held same

theorem removes_purge_iff {m : Market} {name : String} {copy : Copy} {place : Nat}
    : m.Removes name copy (.client (.purge place))
      ↔ ∃ c, m.consumers[place]? = some c ∧ (c.session.isSome ∧ name = c.settings.queue)
          ∧ copy ∈ (m.broker.queueOf name).exits .purge := by
  constructor
  · intro removes
    cases removes with
    | purged client connected queue ready => exact ⟨_, client, ⟨connected, queue⟩, ready⟩
  · rintro ⟨c, client, ⟨connected, queue⟩, ready⟩
    exact .purged client connected queue ready

/-- The copies that an act makes go are those that it takes from the queue, by cases on the act. -/
theorem exit_iff_removes (m : Market) (name : String) (copy : Copy) (act : MarketAct)
    : copy ∈ ((m.broker.queueOf name).log (m.actMoves name act)).filterMap Happening.exit?
      ↔ m.Removes name copy act := by
  cases act with
  | client act =>
      cases act with
      | publish place body =>
          refine iff_of_false ?_ (not_removes (by simp))
          simp only [actMoves, moves]
          cases m.producers[place]? with
          | none => simp
          | some p =>
              rw [Option.elim, Queue.exits_of_pushes fun _ member =>
                ⟨body, Producer.push_of_moves member⟩]
              exact List.not_mem_nil
      | purge place =>
          rw [removes_purge_iff]
          simp only [actMoves, moves]
          cases known : m.consumers[place]? with
          | none => simp
          | some c =>
              simp only [Option.elim, Queue.mem_exits_ite, Option.some.injEq, exists_eq_left']
      | handBack queue consumer =>
          refine iff_of_false ?_ (not_removes (by simp))
          rw [actMoves, moves, Queue.mem_exits_ite]
          simp [Queue.exits]
      | _ => exact iff_of_false (by simp [actMoves, moves]) (not_removes (by simp))
  | receive place session =>
      refine iff_of_false ?_ (not_removes (by simp))
      simp only [actMoves, takeMoves]
      cases m.consumers[place]? with
      | none => simp
      | some c =>
          rw [Option.elim, Queue.mem_exits_ite]
          simp [Queue.exits]
  | ack d => rw [removes_ack_iff, actMoves, Queue.mem_exits_ite]
  | nack d requeue => rw [removes_nack_iff, actMoves, Queue.mem_exits_ite]

/-- Conservation at a queue, where `log` is what happened there so far. -/
structure Conserved (m : Market) (name : String) (log : List Happening) : Prop where
  /-- As many copies came as were pushed, and they are told apart by their numbers. -/
  numbered
    : (log.filterMap Happening.arrival?).map Copy.number
      = List.range' 1 (m.broker.queueOf name).published
  /-- Each copy that came is in one place, and there once: ready, pending or settled. -/
  onePlace
    : ∀ copy ∈ log.filterMap Happening.arrival?,
        ((m.broker.queueOf name).ready.map Message.copy).count copy
          + ((m.broker.queueOf name).pending.map Pending.copy).count copy
          + (log.filterMap Happening.exit?).count copy = 1
  /-- Nothing is on the queue that did not come. -/
  arrived
    : ∀ copy, (m.broker.queueOf name).Has copy → copy ∈ log.filterMap Happening.arrival?
  /-- A copy leaves the queue only by the acts that remove it, and always by them. -/
  leaves
    : ∀ act copy, (m.broker.queueOf name).Has copy →
        (¬((m.step act).broker.queueOf name).Has copy ↔ m.Removes name copy act)
  /-- A pending copy is pending under one tag, which was handed out and is not closed. -/
  oneTag : ((m.broker.queueOf name).pending.map Pending.tag).Nodup
  open_iff
    : ∀ tag, tag ∈ (m.broker.queueOf name).pending.map Pending.tag
        ↔ tag ∈ log.filterMap Happening.opening? ∧ tag ∉ log.filterMap Happening.closing?
  /-- Tags are handed out in increasing order. -/
  increasing : (log.filterMap Happening.opening?).Pairwise (· < ·)
  /-- The tag of a delivery taken now was never handed out. -/
  fresh
    : ∀ place session d after, m.receive? place session = some (d, after) → d.queue = name →
        (m.history name [.receive place session]).filterMap Happening.opening? = [d.tag]
        ∧ ∀ tag ∈ log.filterMap Happening.opening?, tag < d.tag
  /-- A pending tag can be settled, either way. -/
  accepted
    : ∀ d : Delivery, d.queue = name →
        d.tag ∈ (m.broker.queueOf name).pending.map Pending.tag →
        (∃ b, d.ack m.broker = .ok b) ∧ ∀ requeue, ∃ b, d.nack m.broker requeue = .ok b
  /-- Settling a tag that is not pending fails and changes nothing. -/
  refused
    : ∀ d : Delivery, d.queue = name →
        d.tag ∉ (m.broker.queueOf name).pending.map Pending.tag →
        (d.ack m.broker = .error (.ack s!"unknown delivery tag {d.tag}")
          ∧ m.step (.ack d) = m)
        ∧ ∀ requeue, d.nack m.broker requeue = .error (.ack s!"unknown delivery tag {d.tag}")
          ∧ m.step (.nack d requeue) = m

/-- Settling a tag that is not pending fails and leaves everything as it is. -/
theorem settle_refused {queue : String} {tag : Nat}
    (absent : tag ∉ (m.broker.queueOf queue).pending.map Pending.tag) (requeue : Bool)
    : m.broker.settle queue tag requeue = .error (.ack s!"unknown delivery tag {tag}")
      ∧ m.orSame ((m.broker.settle queue tag requeue).map m.onBroker) = m := by
  have refused := State.settle_of_pending?_eq_none requeue (Queue.pending?_eq_none_iff.mpr absent)
  exact ⟨refused, by simp only [refused, Except.map, orSame]⟩

theorem settle_accepted {queue : String} {tag : Nat}
    (pending : tag ∈ (m.broker.queueOf queue).pending.map Pending.tag) (requeue : Bool)
    : ∃ b, m.broker.settle queue tag requeue = .ok b := by
  cases outcome : m.broker.settle queue tag requeue with
  | ok b => exact ⟨b, rfl⟩
  | error e =>
      have absent := State.pending?_of_settle_error outcome
      exact absurd pending (Queue.pending?_eq_none_iff.mp absent)

/-- Balanced accounts of a queue amount to conservation there. -/
theorem conserved_of_accounted {name : String} {log : List Happening}
    (h : (m.broker.queueOf name).Accounted log)
    : m.Conserved name log where
  numbered := h.numbered
  onePlace _ := h.count_places
  arrived _ := h.arrival_of_has
  leaves act copy here := by
    -- A copy cannot come back, so it has left just when it is written down as gone.
    rw [queueOf_step, h.leaves_iff _ here, exit_iff_removes]
  oneTag := h.nodup_tags
  open_iff _ := h.mem_tags_iff
  increasing := h.increasing ▸ List.pairwise_lt_range'
  fresh place session d after received here := by
    obtain ⟨next, number, taken⟩ := log_receive? received
    subst here
    refine ⟨by simp [history, actMoves, taken, Happening.opening?], fun tag issued => ?_⟩
    rw [h.increasing, List.mem_range'_1] at issued
    omega
  accepted d here pending := by
    subst here
    exact ⟨settle_accepted pending false, settle_accepted pending⟩
  refused d here absent := by
    subst here
    exact ⟨settle_refused absent false, settle_refused absent⟩

/-- Conservation at every queue after any acts of any clients. -/
theorem conserved_run (acts : List MarketAct) (name : String)
    : (run {} acts).Conserved name (history {} name acts) := by
  have start : (({} : Market).broker.queueOf name).Accounted [] := Queue.Accounted.start
  simpa only [List.nil_append] using conserved_of_accounted (accounted_run start acts)

end Market

end Almanac.Broker
