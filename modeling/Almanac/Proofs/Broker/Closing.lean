import Almanac.Proofs.Broker.Numbering

/-! What a closed consumer holds.
Closing returns all that a consumer holds. Its streams may still be polled, though, and they look
for a message before they look whether the consumer was closed, so that they take deliveries which
nobody returns any more.
-/

namespace Almanac.Broker

-------------------------------------------------------------------------------
-- What becomes pending
-------------------------------------------------------------------------------

namespace Queue

variable {q : Queue} {p : Pending}

theorem mem_pending_of_settled {tag : Nat} {requeue : Bool}
    (member : p ∈ (q.settled tag requeue).pending)
    : p ∈ q.pending := by
  cases found : q.pending? tag with
  | none => rwa [settled_of_pending?_eq_none requeue found] at member
  | some other =>
      rw [settled_of_pending? requeue found] at member
      cases requeue <;> exact List.mem_of_mem_filter member

/-- Nothing but a take makes a delivery pending, by cases on the move. -/
theorem mem_pending_after {move : Move} (member : p ∈ (q.after move).pending)
    : p ∈ q.pending ∨ ∃ session, move = .take p.consumer session := by
  cases move with
  | push body => exact .inl member
  | take consumer session =>
      cases ready : q.ready with
      | nil => exact .inl (by simpa [after, take?, ready] using member)
      | cons message others =>
          simp only [after, take?, ready, Option.map_some, Option.getD_some, List.mem_append,
            List.mem_singleton] at member
          rcases member with earlier | rfl
          · exact .inl earlier
          · exact .inr ⟨session, rfl⟩
  | acknowledge tag => exact .inl (mem_pending_of_settled member)
  | refuse tag requeue => exact .inl (mem_pending_of_settled member)
  | returnAll consumer => exact .inl (List.mem_of_mem_filter member)
  | purge => exact .inl member

theorem mem_pending_afterAll {moves : List Move} (member : p ∈ (q.afterAll moves).pending)
    : p ∈ q.pending ∨ ∃ session, .take p.consumer session ∈ moves := by
  induction moves generalizing q with
  | nil => exact .inl member
  | cons move moves ih =>
      rcases ih member with earlier | ⟨session, later⟩
      · rcases mem_pending_after earlier with before | ⟨session, rfl⟩
        · exact .inl before
        · exact .inr ⟨session, List.mem_cons_self⟩
      · exact .inr ⟨session, List.mem_cons_of_mem _ later⟩

theorem heldBy_returnAll (q : Queue) (consumer : Nat)
    : (q.returnAll consumer).heldBy consumer = [] := by
  simp [heldBy, returnAll, putBack]

theorem mem_heldBy_iff {consumer : Nat}
    : p ∈ q.heldBy consumer ↔ p ∈ q.pending ∧ p.consumer = consumer := by
  simp [heldBy]

end Queue

namespace Market

variable {m after : Market} {act : MarketAct} {name : String} {p : Pending} {c : Consumer}

/-- Only a stream of a consumer takes messages under its number. -/
theorem receive_of_take_mem {consumer session : Nat}
    (member : .take consumer session ∈ m.actMoves name act)
    : ∃ place c, act = .receive place session ∧ m.consumers[place]? = some c
        ∧ c.number = consumer := by
  cases act with
  | client act =>
      rcases of_mem_moves member with ⟨body, other⟩ | other | ⟨consumer, other, -⟩ <;> cases other
  | receive place other =>
      obtain ⟨c, known, same⟩ := of_mem_takeMoves member
      obtain ⟨rfl, rfl⟩ := Move.take.inj same
      exact ⟨place, c, rfl, known, rfl⟩
  | ack d | nack d requeue =>
      simp only [actMoves] at member
      split at member <;> simp at member

/-- A delivery that becomes pending was taken by a stream of the consumer that holds it. -/
theorem receive_of_mem_pending_step (member : p ∈ ((m.step act).broker.queueOf name).pending)
    (fresh : p ∉ (m.broker.queueOf name).pending)
    : ∃ place session c, act = .receive place session ∧ m.consumers[place]? = some c
        ∧ c.number = p.consumer := by
  rw [queueOf_step] at member
  rcases Queue.mem_pending_afterAll member with earlier | ⟨session, taken⟩
  · exact absurd earlier fresh
  · obtain ⟨place, c, rfl, known, same⟩ := receive_of_take_mem taken
    exact ⟨place, session, c, rfl, known, same⟩

theorem consumers_receive (m : Market) (place session : Nat)
    : (m.step (.receive place session)).consumers = m.consumers := by
  have turn := m.turn_receive place session
  generalize m.step (.receive place session) = after at turn
  cases turn <;> rfl

/-- What a stream of a consumer takes, the consumer holds. -/
theorem heldBy_of_receive? {place session : Nat} {d : Delivery}
    (received : m.receive? place session = some (d, after)) (known : m.consumers[place]? = some c)
    : (after.broker.queueOf c.settings.queue).heldBy c.number ≠ [] := by
  have moved := queueOf_receive? received c.settings.queue
  unfold receive? at received
  split at received
  · rename_i polled
    simp only [known, Option.bind_some, Consumer.receive?, Option.map_eq_some_iff,
      Option.bind_eq_some_iff] at received
    obtain ⟨-, ⟨q, declared, ⟨p, rest⟩, taken, -⟩, -⟩ := received
    have same : m.broker.queueOf c.settings.queue = q := by simp [State.queueOf, declared]
    cases ready : q.ready with
    | nil => simp [Queue.take?, ready] at taken
    | cons message others =>
        simp [moved, takeMoves, known, polled, same, Queue.after, Queue.take?, ready,
          Queue.heldBy]
  · cases received

-------------------------------------------------------------------------------
-- Closed consumers
-------------------------------------------------------------------------------

/-- After some acts, a consumer that was closed, whose closing has returned, and that has not
connected again. -/
inductive Closed (place : Nat) (c : Consumer) : List MarketAct → Prop where
  /-- The closing returns. -/
  | returned {acts : List MarketAct}
    (begun : (c.settings.queue, c.number) ∈ (run {} acts).closing)
    (known : (run {} acts).consumers[place]? = some c) (ended : c.session = none)
    : Closed place c (acts ++ [.client (.handBack c.settings.queue c.number)])
  | since {acts : List MarketAct} {act : MarketAct} (before : Closed place c acts)
    (known : (run {} (acts ++ [act])).consumers[place]? = some c)
    : Closed place c (acts ++ [act])

theorem Closed.known {place : Nat} {acts : List MarketAct} (closed : Closed place c acts)
    : (run {} acts).consumers[place]? = some c := by
  cases closed with
  | returned begun known ended =>
      rw [run_concat]
      simpa [step, serve, begun] using known
  | since before known => exact known

/-- What a consumer holds of its queue after some acts. -/
def holding (acts : List MarketAct) (c : Consumer) : List Pending :=
  ((run {} acts).broker.queueOf c.settings.queue).heldBy c.number

/-- When a closing returns, the consumer holds nothing. -/
theorem holding_returned {acts : List MarketAct}
    (begun : (c.settings.queue, c.number) ∈ (run {} acts).closing)
    : holding (acts ++ [.client (.handBack c.settings.queue c.number)]) c = [] := by
  rw [holding, run_concat, queueOf_step]
  simpa [actMoves, moves, begun, Queue.after] using Queue.heldBy_returnAll _ _

/-- A stream of a closed consumer takes a delivery at this act. -/
structure TakenLate (place : Nat) (c : Consumer) (before : List MarketAct) (session : Nat)
    (p : Pending)
    : Prop where
  closed : Closed place c before
  fresh : p ∉ holding before c
  taken : p ∈ holding (before ++ [.receive place session]) c

/-- Whatever a closed consumer holds, a stream of it took since its closing has returned, by
induction on the acts since then. -/
theorem Closed.takenLate {place : Nat} {acts : List MarketAct} (closed : Closed place c acts)
    (held : p ∈ holding acts c)
    : ∃ before session rest, acts = before ++ .receive place session :: rest
        ∧ TakenLate place c before session p := by
  induction closed with
  | returned begun known ended =>
      rw [holding_returned begun] at held
      cases held
  | @since acts act before known ih =>
      by_cases earlier : p ∈ holding acts c
      · obtain ⟨first, session, rest, rfl, late⟩ := ih earlier
        exact ⟨first, session, rest ++ [act], by simp, late⟩
      · obtain ⟨pending, owner⟩ := Queue.mem_heldBy_iff.mp held
        rw [run_concat] at pending
        have fresh : p ∉ ((run {} acts).broker.queueOf c.settings.queue).pending := fun member =>
          earlier (Queue.mem_heldBy_iff.mpr ⟨member, owner⟩)
        obtain ⟨other, session, d, rfl, found, same⟩ := receive_of_mem_pending_step pending fresh
        obtain rfl : other = place :=
          (numbered_run acts).place_unique found before.known (same.trans owner)
        exact ⟨acts, session, [], rfl, before, earlier, held⟩

/-- A closed consumer holds nothing, at any moment of some acts. -/
def HoldsNothing (acts : List MarketAct) : Prop :=
  ∀ moment rest place c, acts = moment ++ rest → Closed place c moment → holding moment c = []

/-- At some moment of the acts, a stream of a closed consumer has a message to take. -/
def TakesLate (acts : List MarketAct) : Prop :=
  ∃ moment place session rest c, acts = moment ++ .receive place session :: rest
    ∧ Closed place c moment ∧ ((run {} moment).receive? place session).isSome

theorem TakenLate.isSome_receive? {place session : Nat} {before : List MarketAct}
    (late : TakenLate place c before session p)
    : ((run {} before).receive? place session).isSome := by
  cases received : (run {} before).receive? place session with
  | some result => rfl
  | none =>
      have same : run {} (before ++ [.receive place session]) = run {} before := by
        rw [run_concat]
        simp [step, received]
      have taken := late.taken
      rw [holding, same] at taken
      exact absurd taken late.fresh

/-- What closing does for a consumer. -/
structure Closes (acts : List MarketAct) : Prop where
  /-- When it returns, the consumer holds nothing. -/
  returned
    : ∀ before rest (c : Consumer),
        acts = before ++ .client (.handBack c.settings.queue c.number) :: rest →
        (c.settings.queue, c.number) ∈ (run {} before).closing →
        holding (before ++ [.client (.handBack c.settings.queue c.number)]) c = []
  /-- What the closed consumer holds later was taken later, by a stream opened before. -/
  since
    : ∀ moment rest place c, acts = moment ++ rest → Closed place c moment →
        ∀ p ∈ holding moment c, ∃ before session between,
          moment = before ++ .receive place session :: between
            ∧ TakenLate place c before session p
  /-- So it holds nothing, just when no such stream takes anything. -/
  holdsNothing_iff : HoldsNothing acts ↔ ¬TakesLate acts

theorem holdsNothing_iff_not_takesLate (acts : List MarketAct)
    : HoldsNothing acts ↔ ¬TakesLate acts := by
  constructor
  · rintro nothing ⟨moment, place, session, rest, c, rfl, closed, received⟩
    obtain ⟨⟨d, after⟩, received⟩ := Option.isSome_iff_exists.mp received
    have next : run {} (moment ++ [.receive place session]) = after := by
      rw [run_concat]
      simp [step, received]
    have later : Closed place c (moment ++ [.receive place session]) := by
      refine .since closed ?_
      rw [run_concat, consumers_receive]
      exact closed.known
    have held := heldBy_of_receive? received closed.known
    rw [← next] at held
    exact held (nothing _ rest place c (by simp) later)
  · intro none moment rest place c split closed
    apply List.eq_nil_iff_forall_not_mem.mpr
    intro p held
    obtain ⟨before, session, between, rfl, late⟩ := closed.takenLate held
    exact none ⟨before, place, session, between ++ rest, c, by simp [split], late.closed,
      late.isSome_receive?⟩

/-- Closing returns everything, and nothing that the streams of the closed consumer take later. -/
theorem closes (acts : List MarketAct) : Closes acts where
  returned _ _ _ _ begun := holding_returned begun
  since _ _ _ _ _ closed _ held := closed.takenLate held
  holdsNothing_iff := holdsNothing_iff_not_takesLate acts

/-- A consumer that sets no bound to what it holds. -/
def unbounded : Consumer :=
  { settings := { prefetch := 0 }, number := 1 }

/-- The consumer takes a message and is closed while its stream's handler has it. Then the stream is
polled once more, and takes the returned message again. -/
def lateTake : List MarketAct :=
  [.client (.addConsumer unbounded.settings), .client (.connectConsumer 0),
    .client (.addProducer {}), .client (.connectProducer 0), .client (.publish 0 [1, 2]),
    .client (.poll 0 1), .receive 0 1, .client (.leave 0),
    .client (.handBack "notifications" 1), .client (.poll 0 1), .receive 0 1]

/-- The closed consumer holds the message again. -/
theorem not_holdsNothing_lateTake : ¬HoldsNothing lateTake := by
  intro nothing
  have begun : ("notifications", 1) ∈ (run {} (lateTake.take 8)).closing := by decide +kernel
  have left : (run {} (lateTake.take 8)).consumers[0]? = some unbounded := by decide +kernel
  have returned : Closed 0 unbounded (lateTake.take 9) := .returned begun left rfl
  have polled : Closed 0 unbounded (lateTake.take 10) := .since returned (by decide +kernel)
  have taken : Closed 0 unbounded lateTake := .since polled (by decide +kernel)
  have held : holding lateTake unbounded ≠ [] := by decide +kernel
  exact held (nothing lateTake [] 0 unbounded (List.append_nil _).symm taken)

end Market

end Almanac.Broker
