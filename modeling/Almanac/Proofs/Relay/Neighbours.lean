import Almanac.Proofs.Broker.Closing
import Almanac.Proofs.Relay.Workplace

/-! The neighbours of a consumer: those who use other consumers, handle the deliveries of other
queues, and publish anywhere. They leave alone what the consumer has and what is done at its queue.
-/

namespace Almanac

open Time Broker

-------------------------------------------------------------------------------
-- What clients keep of a consumer
-------------------------------------------------------------------------------

/-- Connecting gives a consumer a session, if it has none, and changes nothing else about it. -/
theorem Broker.Consumer.of_connect {c next : Consumer} {b broker : State}
    (connected : c.connect b = .ok (next, broker))
    : ∃ session, next = { c with session := some session } := by
  unfold Consumer.connect at connected
  split at connected
  · rename_i session present
    cases connected
    exact ⟨session, by rw [← present]⟩
  · cases declared : b.declare c.settings with
    | error e => simp [declared, Except.map] at connected
    | ok middle =>
        simp only [declared, Except.map, Except.ok.injEq, Prod.mk.injEq] at connected
        exact ⟨_, connected.1.symm⟩

namespace Broker.Market

variable {m after : Market} {place : Nat} {queue : String}

/-- What clients keep of the consumer at a place and of its queue. -/
structure Keeps (m after : Market) (place : Nat) (queue : String) : Prop where
  client : ∀ c, m.consumers[place]? = some c → after.consumers[place]? = some c
  streams : ∀ session, (place, session) ∈ m.streams → (place, session) ∈ after.streams
  closing : ∀ consumer, (queue, consumer) ∈ m.closing → (queue, consumer) ∈ after.closing

theorem Keeps.refl (m : Market) : m.Keeps m place queue where
  client _ := id
  streams _ := id
  closing _ := id

theorem keeps_onBroker (m : Market) (broker : State) : m.Keeps (m.onBroker broker) place queue where
  client _ := id
  streams _ := id
  closing _ := id

/-- An act keeps a consumer as it is unless it connects or closes it, and what was begun at its
queue unless it ends that. -/
theorem keeps_serve (m : Market) (act : ClientAct)
    (apart : ∀ other, act = .connectConsumer other ∨ act = .leave other → other ≠ place)
    (elsewhere : ∀ other consumer, act = .handBack other consumer → other ≠ queue)
    : m.Keeps (m.serve act) place queue := by
  have turn := m.turn_serve act
  generalize m.serve act = after at turn
  cases turn with
  | idle | addProducer | connectProducer | closeProducer =>
      exact ⟨fun _ => id, fun _ => id, fun _ => id⟩
  | addConsumer =>
      refine ⟨fun c known => ?_, fun _ => id, fun _ => id⟩
      rw [List.getElem?_append_left (List.getElem?_eq_some_iff.mp known).1]
      exact known
  | connectConsumer known ended declared =>
      have differ := apart _ (.inl rfl)
      refine ⟨fun c present => ?_, fun _ => List.mem_append_left _, fun _ => id⟩
      rw [List.getElem?_set_ne differ]
      exact present
  | openStream known connected =>
      exact ⟨fun _ => id, fun _ => List.mem_append_left _, fun _ => id⟩
  | publish | poll | giveUp | purge => exact keeps_onBroker _ _
  | leave known connected =>
      have differ := apart _ (.inr rfl)
      refine ⟨fun c present => ?_, fun _ => id, fun _ => List.mem_cons_of_mem _⟩
      rw [List.getElem?_set_ne differ]
      exact present
  | handBack begun =>
      have differ := elsewhere _ _ rfl
      refine ⟨fun _ => id, fun _ => id, fun consumer member => ?_⟩
      exact (List.mem_erase_of_ne fun same => differ (congrArg Prod.fst same).symm).mpr member

/-- A consumer that connects has a session and a stream of it. -/
theorem serve_connectConsumer {c next : Consumer} {broker : State}
    (known : m.consumers[place]? = some c) (connected : c.connect m.broker = .ok (next, broker))
    : m.serve (.connectConsumer place)
      = { m with
          broker
          consumers := m.consumers.set place next
          streams := m.streams ++ next.session.toList.map (place, ·) } := by
  simp [serve, asConsumer, known, connected, orSame, Except.map]

/-- A client purges a queue only through a consumer of that queue. -/
theorem purge_of_mem_moves {act : ClientAct} (member : .purge ∈ m.moves queue act)
    : ∃ other c, act = .purge other ∧ m.consumers[other]? = some c
        ∧ c.settings.queue = queue := by
  cases act with
  | purge other =>
      cases known : m.consumers[other]? with
      | none => simp [moves, known] at member
      | some c =>
          have here : c.session.isSome ∧ queue = c.settings.queue := by
            simpa [moves, known] using member
          exact ⟨other, c, rfl, known, here.2.symm⟩
  | publish other body =>
      cases known : m.producers[other]? with
      | none => simp [moves, known] at member
      | some p => cases Producer.push_of_moves (by simpa [moves, known] using member)
  | handBack other consumer => simp [moves] at member
  | _ => cases member

/-- A delivery moves the queue of the consumer it is for. -/
theorem consumer_of_mem_takeMoves {other session : Nat} {move : Move}
    (member : move ∈ m.takeMoves queue other session)
    : ∃ c, m.consumers[other]? = some c ∧ c.settings.queue = queue := by
  cases known : m.consumers[other]? with
  | none => simp [takeMoves, known] at member
  | some c =>
      simp only [takeMoves, known, Option.elim] at member
      split at member
      · rename_i here
        exact ⟨c, rfl, here.2.symm⟩
      · cases member

/-- A delivery is taken by a consumer, from its queue, and changes nothing but the broker. -/
theorem of_receive? {other session : Nat} {d : Delivery}
    (received : m.receive? other session = some (d, after))
    : ∃ c broker, m.consumers[other]? = some c ∧ d.queue = c.settings.queue
        ∧ after = m.onBroker broker := by
  unfold receive? at received
  split at received
  · obtain ⟨c, known, delivered⟩ := Option.bind_eq_some_iff.mp received
    obtain ⟨⟨_, broker⟩, taken, eq⟩ := Option.map_eq_some_iff.mp delivered
    obtain ⟨rfl, rfl⟩ := Prod.mk.inj eq
    obtain ⟨q, declared, found⟩ := Option.bind_eq_some_iff.mp taken
    obtain ⟨_, _, eq⟩ := Option.map_eq_some_iff.mp found
    obtain ⟨rfl, -⟩ := Prod.mk.inj eq
    exact ⟨c, broker, known, rfl, rfl⟩
  · cases received

end Broker.Market

namespace Relay

-------------------------------------------------------------------------------
-- What others may do
-------------------------------------------------------------------------------

/-- At a queue that is not the job's own, a step of it does nothing but publish. -/
theorem Crew.push_of_moves {c : Crew} {b : Broker.State} {job : Job} {queue : String}
    (apart : ¬queue = job.delivery.queue) {move : Move} (member : move ∈ c.moves b job queue)
    : ∃ body, move = .push body := by
  cases stage : job.stage with
  | fresh =>
      cases decoded : Notification.decode job.delivery.body with
      | error e => simp [moves, stage, decoded, apart] at member
      | ok n => exact Target.push_of_moves (by simpa [moves, stage, decoded] using member)
  | relaying n => simp [moves, stage] at member
  | relayed | pausing => simp [moves, stage, apart] at member

namespace Workplace

/-- The jobs at deliveries of a queue. -/
def jobsAt (w : Workplace) (queue : String) : List Job :=
  w.jobs.filter (·.delivery.queue = queue)

/-- Whether the consumer at a place, if there is one, takes from a queue. -/
def takesFrom (w : Workplace) (place : Nat) (queue : String) : Bool :=
  (w.market.consumers[place]?).any (·.settings.queue = queue)

/-- Whether an act is one of somebody who neither uses the consumer at a place nor takes from a
queue, nor handles its deliveries, nor removes its messages. Anyone may publish there. -/
def allowsOther (w : Workplace) (place : Nat) (queue : String) : WorkAct → Bool
  | .client (.connectConsumer other) | .client (.poll other _) | .client (.giveUp other _)
  | .client (.leave other) => other ≠ place
  | .client (.purge other) | .take other _ _ => !w.takesFrom other queue
  | .client (.handBack other _) => other ≠ queue
  | .client _ => true
  | .work job _ _ | .balk job _ | .abandon job => job.delivery.queue ≠ queue

variable {w after : Workplace} {place : Nat} {queue : String} {act : WorkAct}

-------------------------------------------------------------------------------
-- What they leave alone
-------------------------------------------------------------------------------

/-- What others leave alone: the consumer at a place and what was begun for it, what is pending on
its queue, and the jobs there. -/
structure Spares (w after : Workplace) (place : Nat) (queue : String) : Prop where
  market : w.market.Keeps after.market place queue
  pending
    : ∀ p ∈ (after.market.broker.queueOf queue).pending,
        p ∈ (w.market.broker.queueOf queue).pending
  jobs : (after.jobsAt queue).Perm (w.jobsAt queue)

/-- At the queue, others do nothing but publish. -/
theorem push_of_allowsOther (allowed : w.allowsOther place queue act) {move : Move}
    (member : move ∈ w.moves queue act)
    : ∃ body, move = .push body := by
  cases act with
  | client act =>
      rcases Market.of_mem_moves member with push | rfl | ⟨consumer, rfl, rfl⟩
      · exact push
      · obtain ⟨other, c, rfl, known, same⟩ := Market.purge_of_mem_moves member
        simp [allowsOther, takesFrom, known, same] at allowed
      · simp [allowsOther] at allowed
  | take other session turn =>
      obtain ⟨c, known, same⟩ := Market.consumer_of_mem_takeMoves member
      simp [allowsOther, takesFrom, known, same] at allowed
  | work job crew now =>
      have apart : ¬job.delivery.queue = queue := by simpa [allowsOther] using allowed
      simp only [moves] at member
      split at member
      · exact Crew.push_of_moves (fun same => apart same.symm) member
      · cases member
  | balk job now | abandon job => cases member

/-- Jobs elsewhere come and go without those at a queue. -/
theorem perm_jobsAt_of_ne {job : Job} (hand : job ∈ w.jobs) {next : List Job}
    (apart : ¬job.delivery.queue = queue) (others : ∀ j ∈ next, ¬j.delivery.queue = queue)
    : ((w.jobs.erase job ++ next).filter (·.delivery.queue = queue)).Perm (w.jobsAt queue) := by
  have split := ((List.perm_cons_erase hand).filter (·.delivery.queue = queue)).symm
  have none : next.filter (·.delivery.queue = queue) = [] := by
    simpa [List.filter_eq_nil_iff] using others
  rw [List.filter_cons_of_neg (by simpa using apart)] at split
  rw [List.filter_append, none, List.append_nil]
  exact split

/-- A job of a queue gives way to what it goes on as. -/
theorem perm_jobsAt {job : Job} (hand : job ∈ w.jobsAt queue) {next : List Job}
    (same : ∀ j ∈ next, j.delivery.queue = queue)
    : ((w.jobs.erase job ++ next).filter (·.delivery.queue = queue)).Perm
        ((w.jobsAt queue).erase job ++ next) := by
  obtain ⟨member, here⟩ := List.mem_filter.mp hand
  have split := (List.perm_cons_erase member).filter (·.delivery.queue = queue)
  have all : next.filter (·.delivery.queue = queue) = next := by
    simpa [List.filter_eq_self] using same
  rw [List.filter_cons, if_pos here] at split
  rw [List.filter_append, all]
  exact ((List.cons_perm_iff_perm_erase.mp split.symm).2).append_right _

/-- A delivery to whomever leaves the clients as they are. -/
theorem keeps_take (w : Workplace) (other session : Nat) (turn : Turn)
    : w.market.Keeps (w.step (.take other session turn)).market place queue := by
  simp only [step]
  split
  · rename_i received
    obtain ⟨c, broker, -, -, rfl⟩ := Market.of_receive? received
    exact Market.keeps_onBroker _ _
  · exact .refl _

/-- A crew at work settles and publishes, and changes no client. -/
theorem keeps_work (w : Workplace) (job : Job) (crew : Crew) (now : Turn)
    : w.market.Keeps (w.step (.work job crew now)).market place queue := by
  simp only [step]
  split
  · exact Market.keeps_onBroker _ _
  · exact .refl _

/-- What is allowed to others neither closes nor reconnects the client at this place. -/
theorem keeps_of_allowsOther (allowed : w.allowsOther place queue act)
    : w.market.Keeps (w.step act).market place queue := by
  cases act with
  | client act =>
      refine w.market.keeps_serve act ?_ ?_
      · rintro other (rfl | rfl) <;> simpa [allowsOther] using allowed
      · rintro other consumer rfl
        simpa [allowsOther] using allowed
  | take other session turn => exact w.keeps_take other session turn
  | work job crew now => exact w.keeps_work job crew now
  | balk job now =>
      simp only [step]
      split <;> exact .refl _
  | abandon job => exact .refl _

/-- Others leave the jobs at the queue alone, by cases on the act. -/
theorem perm_jobsAt_of_allowsOther (allowed : w.allowsOther place queue act)
    : ((w.step act).jobsAt queue).Perm (w.jobsAt queue) := by
  cases act with
  | client act => exact .refl _
  | take other session turn =>
      simp only [step]
      split
      · rename_i d market received
        obtain ⟨c, broker, known, same, -⟩ := Market.of_receive? received
        have apart : ¬d.queue = queue := by
          simpa [allowsOther, takesFrom, known, same] using allowed
        simp [jobsAt, List.filter_append, apart]
      · exact .refl _
  | work job crew now =>
      have apart : ¬job.delivery.queue = queue := by simpa [allowsOther] using allowed
      by_cases hand : job ∈ w.jobs
      · simp only [step, hand, if_true]
        refine perm_jobsAt_of_ne hand apart fun next member => ?_
        rw [Crew.delivery_step (Option.mem_toList.mp member)]
        exact apart
      · simp [step, hand]
  | balk job now =>
      have apart : ¬job.delivery.queue = queue := by simpa [allowsOther] using allowed
      by_cases hand : job ∈ w.jobs
      · simp only [step, hand, if_true]
        exact perm_jobsAt_of_ne hand apart (by simpa [Job.delivery_balk] using apart)
      · simp [step, hand]
  | abandon job =>
      have apart : ¬job.delivery.queue = queue := by simpa [allowsOther] using allowed
      by_cases hand : job ∈ w.jobs
      · have others : ∀ j ∈ ([] : List Job), ¬j.delivery.queue = queue := by simp
        simpa [step, jobsAt] using perm_jobsAt_of_ne hand apart others
      · simp [step, List.erase_of_not_mem hand]

/-- An act of a client that does nothing at the queue, nor connects or closes the consumer. -/
theorem spares_client (w : Workplace) (act : ClientAct)
    (apart : ∀ other, act = .connectConsumer other ∨ act = .leave other → other ≠ place)
    (quiet : w.market.moves queue act = [])
    (elsewhere : ∀ other consumer, act = .handBack other consumer → other ≠ queue)
    : w.Spares (w.step (.client act)) place queue where
  market := w.market.keeps_serve act apart elsewhere
  pending p member := by
    rw [queueOf_step] at member
    simpa [moves, Market.actMoves, quiet] using member
  jobs := .refl _

/-- What is allowed to others spares all that belongs here: they add nothing to what is pending
for its consumer, as their moves are pushes. -/
theorem spares_of_allowsOther (allowed : w.allowsOther place queue act)
    : w.Spares (w.step act) place queue where
  market := keeps_of_allowsOther allowed
  pending p member := by
    rw [queueOf_step] at member
    rcases Queue.mem_pending_afterAll member with earlier | ⟨session, taken⟩
    · exact earlier
    · obtain ⟨body, push⟩ := push_of_allowsOther allowed taken
      cases push
  jobs := perm_jobsAt_of_allowsOther allowed

end Workplace

end Relay

end Almanac
