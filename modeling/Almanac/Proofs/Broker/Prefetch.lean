import Almanac.Proofs.Broker.Slots

/-! How many deliveries a session of a consumer holds.
Deliveries are settled by those who have them in hand. One that is dropped unsettled keeps its slot
until its consumer closes, so the slots of a session bound what it holds, whoever forgets what.
-/

namespace Almanac.Broker

-------------------------------------------------------------------------------
-- What stays pending
-------------------------------------------------------------------------------

/-- A move leaves a delivery pending: it does not settle it, nor returns what its consumer holds. -/
def Move.Spares (p : Pending) : Move → Prop
  | .acknowledge tag | .refuse tag _ => tag ≠ p.tag
  | .returnAll consumer => consumer ≠ p.consumer
  | .push _ | .take _ _ | .purge => True

namespace Queue

variable {q : Queue} {p : Pending}

/-- Settling one tag leaves the entries of others pending. -/
theorem mem_pending_settled {tag : Nat} (requeue : Bool) (member : p ∈ q.pending)
    (other : tag ≠ p.tag)
    : p ∈ (q.settled tag requeue).pending := by
  cases found : q.pending? tag with
  | none => rwa [settled_of_pending?_eq_none requeue found]
  | some settled =>
      rw [settled_of_pending? requeue found]
      cases requeue <;> exact List.mem_filter.mpr ⟨member, by simpa using Ne.symm other⟩

/-- An entry that a move spares stays pending, move by move. -/
theorem mem_pending_of_spares {move : Move} (member : p ∈ q.pending) (spared : move.Spares p)
    : p ∈ (q.after move).pending := by
  cases move with
  | push body => exact member
  | take consumer session =>
      cases ready : q.ready with
      | nil => simpa [after, take?, ready] using member
      | cons message others => simp [after, take?, ready, member]
  | acknowledge tag => exact mem_pending_settled false member spared
  | refuse tag requeue => exact mem_pending_settled requeue member spared
  | returnAll consumer =>
      exact List.mem_filter.mpr ⟨member, by simpa using Ne.symm spared⟩
  | purge => exact member

/-- An entry spared by all moves stays pending, by induction on them. -/
theorem mem_pending_of_spares_all {moves : List Move} (member : p ∈ q.pending)
    (spared : ∀ move ∈ moves, move.Spares p)
    : p ∈ (q.afterAll moves).pending := by
  induction moves generalizing q with
  | nil => exact member
  | cons move moves ih =>
      obtain ⟨first, later⟩ := List.forall_mem_cons.mp spared
      exact ih (mem_pending_of_spares member first) later

end Queue

namespace Market

variable {m : Market} {name : String} {p : Pending}

/-- What clients do leaves a delivery pending, unless they close its consumer. -/
theorem spares_of_mem_moves {act : ClientAct} {move : Move} (member : move ∈ m.moves name act)
    (unclosed : act ≠ .handBack name p.consumer)
    : move.Spares p := by
  rcases of_mem_moves member with ⟨body, rfl⟩ | rfl | ⟨consumer, rfl, rfl⟩
  · trivial
  · trivial
  · rintro rfl
    exact unclosed rfl

theorem spares_of_mem_takeMoves {place session : Nat} {move : Move}
    (member : move ∈ m.takeMoves name place session)
    : move.Spares p := by
  obtain ⟨c, -, rfl⟩ := of_mem_takeMoves member
  trivial

/-- A settlement of another delivery leaves this one pending. -/
theorem mem_pending_settle {queue : String} {tag : Nat} (requeue : Bool)
    (member : p ∈ (m.broker.queueOf name).pending) (other : queue = name → tag ≠ p.tag)
    : p ∈ ((m.orSame ((m.broker.settle queue tag requeue).map m.onBroker)).broker.queueOf
        name).pending := by
  rw [queueOf_settle]
  split
  · exact Queue.mem_pending_settled requeue member (other (Eq.symm ‹_›))
  · exact member

end Market

-------------------------------------------------------------------------------
-- Deliveries in hand
-------------------------------------------------------------------------------

/-- A broker with its clients, and the deliveries that they have in hand. -/
structure Floor where
  market : Market := {}
  hands : List Delivery := []

/-- What is done with deliveries in hand, and everything else that clients do. -/
inductive FloorAct where
  | client (act : ClientAct)
  | receive (place session : Nat)
  | ack (d : Delivery)
  | nack (d : Delivery) (requeue : Bool)
  /-- A delivery is dropped, settled or not. -/
  | drop (d : Delivery)

namespace Floor

/-- One act. A delivery that nobody has in hand cannot be settled. -/
def step (f : Floor) : FloorAct → Floor
  | .client act => { f with market := f.market.serve act }
  | .receive place session =>
      match f.market.receive? place session with
      | some (d, market) => { market, hands := d :: f.hands }
      | none => f
  | .ack d => if d ∈ f.hands then { f with market := f.market.step (.ack d) } else f
  | .nack d requeue =>
      if d ∈ f.hands then { f with market := f.market.step (.nack d requeue) } else f
  | .drop d => { f with hands := f.hands.erase d }

def run (f : Floor) (acts : List FloorAct) : Floor :=
  acts.foldl step f

variable {f : Floor} {name : String} {p : Pending} {act : FloorAct}

/-- An act on the floor is one act at the broker, or none. -/
theorem market_step (f : Floor) (act : FloorAct)
    : (f.step act).market = f.market ∨ ∃ done, (f.step act).market = f.market.step done := by
  cases act with
  | client act => exact .inr ⟨.client act, rfl⟩
  | receive place session =>
      cases received : f.market.receive? place session with
      | none => exact .inl (by simp [step, received])
      | some result =>
          exact .inr ⟨.receive place session, by simp [step, received, Market.step]⟩
  | ack d =>
      by_cases hand : d ∈ f.hands
      · exact .inr ⟨.ack d, by simp [step, hand]⟩
      · exact .inl (by simp [step, hand])
  | nack d requeue =>
      by_cases hand : d ∈ f.hands
      · exact .inr ⟨.nack d requeue, by simp [step, hand]⟩
      · exact .inl (by simp [step, hand])
  | drop d => exact .inl rfl

/-- What is done on the floor is done at the broker, by induction on the acts from the last one. -/
theorem market_run (acts : List FloorAct)
    : ∃ done, (run {} acts).market = Market.run {} done := by
  induction acts using List.reverseRecOn with
  | nil => exact ⟨[], rfl⟩
  | append_singleton acts act ih =>
      obtain ⟨done, same⟩ := ih
      have last : run {} (acts ++ [act]) = (run {} acts).step act := by simp [run]
      rcases market_step (run {} acts) act with idle | ⟨next, stepped⟩
      · exact ⟨done, by rw [last, idle, same]⟩
      · exact ⟨done ++ [next], by rw [last, stepped, same, Market.run_concat]⟩

/-- A delivery that is pending and that nobody has in hand. -/
structure Abandoned (f : Floor) (name : String) (p : Pending) : Prop where
  pending : p ∈ (f.market.broker.queueOf name).pending
  dropped : ∀ d ∈ f.hands, d.queue = name → d.tag ≠ p.tag

/-- A delivery that nobody has in hand stays so and keeps its slot, unless its consumer closes, by
cases on the act. -/
theorem Abandoned.step (h : f.Abandoned name p) {log : List Happening}
    (accounted : (f.market.broker.queueOf name).Accounted log)
    (unclosed : act ≠ .client (.handBack name p.consumer))
    : (f.step act).Abandoned name p := by
  cases act with
  | client act =>
      refine ⟨?_, h.dropped⟩
      simp only [Floor.step, Market.queueOf_serve]
      exact Queue.mem_pending_of_spares_all h.pending
        fun _ made => Market.spares_of_mem_moves made fun same => unclosed (congrArg _ same)
  | receive place session =>
      simp only [Floor.step]
      cases received : f.market.receive? place session with
      | none => exact h
      | some result =>
          obtain ⟨d, market⟩ := result
          constructor
          case pending =>
            rw [Market.queueOf_receive? received]
            exact Queue.mem_pending_of_spares_all h.pending fun _ made =>
              Market.spares_of_mem_takeMoves made
          case dropped =>
            intro other member here
            rcases List.mem_cons.mp member with rfl | earlier
            · have fresh := (Market.log_receive? received).1
              have tagged := accounted.mem_tags_iff.mp (List.mem_map_of_mem h.pending)
              have below := accounted.le_of_opening tagged.1
              rw [here] at fresh
              omega
            · exact h.dropped other earlier here
  | ack d =>
      simp only [Floor.step]
      split
      · exact ⟨Market.mem_pending_settle false h.pending (h.dropped d ‹_›), h.dropped⟩
      · exact h
  | nack d requeue =>
      simp only [Floor.step]
      split
      · exact ⟨Market.mem_pending_settle requeue h.pending (h.dropped d ‹_›), h.dropped⟩
      · exact h
  | drop d => exact ⟨h.pending, fun other member => h.dropped other (List.mem_of_mem_erase member)⟩

/-- It stays so over any acts up to the closing of its consumer, by induction on them. -/
theorem Abandoned.run {acts : List FloorAct} (h : (run {} acts).Abandoned name p)
    (more : List FloorAct) (unclosed : .client (.handBack name p.consumer) ∉ more)
    : ((Floor.run {} acts).run more).Abandoned name p := by
  induction more generalizing acts with
  | nil => exact h
  | cons act more ih =>
      obtain ⟨other, later⟩ := List.ne_and_not_mem_of_not_mem_cons unclosed
      obtain ⟨done, same⟩ := market_run acts
      obtain ⟨log, accounts⟩ := Market.accounts_run done name
      have next := h.step (same ▸ accounts) (Ne.symm other)
      have last : Floor.run {} (acts ++ [act]) = (Floor.run {} acts).step act := by
        simp [Floor.run]
      rw [← last] at next
      have whole := ih next later
      rwa [last] at whole

-------------------------------------------------------------------------------
-- Slots of a session
-------------------------------------------------------------------------------

/-- A settlement of a delivery in hand that succeeds, one way or the other. -/
inductive Settles (f : Floor) (d : Delivery) (after : State) : FloorAct → Prop where
  | ack (done : d.ack f.market.broker = .ok after) : Settles f d after (.ack d)
  | nack {requeue : Bool} (done : d.nack f.market.broker requeue = .ok after)
    : Settles f d after (.nack d requeue)

/-- One slot of a session is freed, whose delivery is not pending any more. Nothing changes for the
other sessions. -/
structure FreesOne (b after : State) (session : Nat) : Prop where
  taken : ∀ other, b.taken other = after.taken other + if session = other then 1 else 0
  sessions
    : after.sessions = b.sessions.map fun s =>
        if s.number = session ∧ s.isBounded then { s with free := s.free + 1 } else s

/-- The slots of a session of a consumer, as many as its prefetch asked for. -/
structure Bounded (f : Floor) (session prefetch : Nat) : Prop where
  /-- Each of them is free, with a poll that waits for a message, or taken up by a delivery. -/
  balance
    : ∃ s, f.market.broker.session? session = some s
        ∧ s.free + s.polls + f.market.broker.taken session = prefetch
  /-- So the session holds no more deliveries than that. -/
  bound : f.market.broker.taken session ≤ prefetch
  /-- Dropping a delivery frees nothing. -/
  dropped : ∀ d, (f.step (.drop d)).market = f.market
  /-- Nor does anything later free the slot of a dropped delivery, until its consumer closes. -/
  abandoned
    : ∀ name p, f.Abandoned name p →
        ∀ acts, .client (.handBack name p.consumer) ∉ acts → (f.run acts).Abandoned name p
  /-- A settlement that succeeds frees the slot of its delivery, and no other. -/
  settled
    : ∀ d ∈ f.hands, ∀ act after, f.Settles d after act →
        (f.step act).market.broker = after
        ∧ ∃ p ∈ (f.market.broker.queueOf d.queue).pending, p.tag = d.tag
            ∧ FreesOne f.market.broker after p.session

variable {m : Market} {d : Delivery}

theorem sessions_settleAt (b : State) (name : String) (q : Queue) (session : Nat)
    : (b.settleAt name q session).sessions
      = b.sessions.map fun s =>
          if s.number = session ∧ s.isBounded then { s with free := s.free + 1 } else s := by
  refine List.map_congr_left fun s _ => ?_
  by_cases same : s.number = session <;> simp [same, Session.release]

/-- A settlement that succeeds at a broker frees one slot there. -/
theorem freesOne_of_settle {after : State} {requeue : Bool} (acts : List MarketAct)
    (done : (Market.run {} acts).broker.settle d.queue d.tag requeue = .ok after)
    : ∃ p ∈ ((Market.run {} acts).broker.queueOf d.queue).pending, p.tag = d.tag
        ∧ FreesOne (Market.run {} acts).broker after p.session := by
  obtain ⟨q, p, declared, held, rfl⟩ := Market.of_settle done
  have settled := Market.perm_settled (Market.accounts_run acts _) declared held requeue
  have distinct := (Market.numbered_run acts).broker.names
  refine ⟨p, ?_, by simpa using List.find?_some held, ?_⟩
  · simpa [State.queueOf, declared] using List.mem_of_find?_eq_some held
  · exact ⟨State.taken_settleAt distinct declared settled, sessions_settleAt _ _ _ _⟩

/-- What is settled on the floor is settled at the broker. -/
theorem Settles.broker_step {after : State} (settles : f.Settles d after act) (hand : d ∈ f.hands)
    : (f.step act).market.broker = after := by
  cases settles with
  | ack done => simp [step, hand, Market.step, done, Market.orSame, Except.map, Market.onBroker]
  | nack done => simp [step, hand, Market.step, done, Market.orSame, Except.map, Market.onBroker]

theorem Settles.exists_settle {after : State} (settles : f.Settles d after act)
    : ∃ requeue, f.market.broker.settle d.queue d.tag requeue = .ok after := by
  cases settles with
  | ack done => exact ⟨false, done⟩
  | nack done => exact ⟨_, done⟩

/-- The slots of a connected consumer's session, after any acts of any clients on the floor. -/
theorem bounded_run (acts : List FloorAct) (place : Nat) {c : Consumer} {session : Nat}
    (known : (run {} acts).market.consumers[place]? = some c) (connected : c.session = some session)
    (limited : 0 < c.settings.prefetch)
    : (run {} acts).Bounded session c.settings.prefetch.toNat := by
  obtain ⟨done, same⟩ := market_run acts
  rw [same] at known
  have numbered := Market.numbered_run done
  obtain ⟨s, member, shape⟩ :=
    List.mem_map.mp (numbered.connected c (List.mem_of_getElem? known) session connected)
  obtain ⟨rfl, slots⟩ : s.number = session ∧ s.slots = c.settings.prefetch.toNat :=
    Prod.mk.inj shape
  have bounded : s.isBounded := by
    simpa [Session.isBounded, slots] using UInt16.lt_iff_toNat_lt.mp limited
  have balance := (Market.balanced_run done).slotted s member bounded
  rw [slots] at balance
  constructor
  case balance =>
    rw [same]
    exact ⟨s, numbered.broker.session?_eq_some_iff.mpr member, balance⟩
  case bound =>
    rw [same]
    omega
  case dropped => exact fun _ => rfl
  case abandoned => exact fun name p h more unclosed => h.run more unclosed
  case settled =>
    intro d hand act after settles
    obtain ⟨requeue, settled⟩ := settles.exists_settle
    refine ⟨settles.broker_step hand, ?_⟩
    rw [same] at settled ⊢
    exact freesOne_of_settle done settled

/-- Two streams of one session wait, one of them has a delivery and drops it. -/
def forgetful : List FloorAct :=
  [.client (.addConsumer { prefetch := 2 }), .client (.connectConsumer 0),
    .client (.connectConsumer 0), .client (.addProducer {}), .client (.connectProducer 0),
    .client (.publish 0 [1, 2]), .client (.poll 0 1), .client (.poll 0 1), .receive 0 1,
    .drop ⟨"notifications", 1, false, [1, 2]⟩]

/-- The dropped delivery keeps its slot, so none is free while the other stream waits with the second
one. -/
theorem bounded_run_forgetful
    : (run {} forgetful).market.consumers[0]? = some ⟨{ prefetch := 2 }, 1, some 1⟩
      ∧ (0 : UInt16) < 2
      ∧ (run {} forgetful).market.broker.session? 1 = some ⟨1, 2, 0, 1⟩
      ∧ (run {} forgetful).Bounded 1 2 := by
  have known : (run {} forgetful).market.consumers[0]? = some ⟨{ prefetch := 2 }, 1, some 1⟩ := by
    decide +kernel
  exact ⟨known, by decide, by decide +kernel, bounded_run forgetful 0 known rfl (by decide)⟩

end Floor

end Almanac.Broker
