import Almanac.Proofs.Broker.Declaration
import Almanac.Proofs.Broker.Numbering
import Almanac.Proofs.Broker.Routing

/-! The topology of a broker: its exchanges with their kinds and bindings, and its queues.
Declarations alone change it, and they only add to it. So what a client once connected to stays as
it was declared, and connecting to it again finds everything there.
-/

namespace Almanac.Broker

-------------------------------------------------------------------------------
-- What stays when a broker grows
-------------------------------------------------------------------------------

namespace State

variable {b middle after : State} {s : Settings} {name : String}

/-- A broker has all that it had: exchanges of the same kinds with the same bindings, to which
others may have been added, and queues of the same names. -/
structure Extends (b after : State) : Prop where
  exchanges
    : ∀ name x, b.exchange? name = some x →
        ∃ y, after.exchange? name = some y ∧ y.kind = x.kind ∧ x.bindings <+: y.bindings
  queues : ∀ name, b.hasQueue name → after.hasQueue name

theorem Extends.refl (b : State) : b.Extends b :=
  ⟨fun _ x found => ⟨x, found, rfl, List.prefix_rfl⟩, fun _ => id⟩

/-- Extension composes: kinds agree throughout, and prefixes of bindings chain. -/
theorem Extends.trans (first : b.Extends middle) (later : middle.Extends after)
    : b.Extends after where
  exchanges name x found := by
    obtain ⟨y, between, kind, bindings⟩ := first.exchanges name x found
    obtain ⟨z, found', kind', bindings'⟩ := later.exchanges name y between
    exact ⟨z, found', kind'.trans kind, bindings.trans bindings'⟩
  queues name present := later.queues name (first.queues name present)

/-- A queue is known exactly if its name is listed, since a lookup fails only where no entry has
the name. -/
theorem hasQueue_iff_mem_names : b.hasQueue name ↔ name ∈ b.queues.map Prod.fst := by
  constructor
  · intro present
    obtain ⟨q, found⟩ := Option.isSome_iff_exists.mp present
    obtain ⟨before, rest, split, -⟩ := List.lookup_eq_some_iff.mp found
    simp [split]
  · intro listed
    cases found : b.queue? name with
    | some q => simp [hasQueue, found]
    | none => exact absurd listed (not_mem_names_of_queue?_eq_none found)

/-- A broker with the same exchanges, and with queues of the same names, has the same topology. -/
structure SameTopology (b after : State) : Prop where
  exchanges : after.exchanges = b.exchanges
  names : after.queues.map Prod.fst = b.queues.map Prod.fst

/-- The same names are known over one topology. -/
theorem SameTopology.hasQueue (same : b.SameTopology after) (name : String)
    : after.hasQueue name = b.hasQueue name := by
  rw [Bool.eq_iff_iff, hasQueue_iff_mem_names, hasQueue_iff_mem_names, same.names]

/-- The same exchanges are found over one topology. -/
theorem SameTopology.exchange? (same : b.SameTopology after) (name : String)
    : after.exchange? name = b.exchange? name := by
  rw [State.exchange?, same.exchanges, State.exchange?]

/-- An unchanged topology is an extension with nothing added. -/
theorem SameTopology.grown (same : b.SameTopology after) : b.Extends after where
  exchanges name x found := ⟨x, by rwa [same.exchange?], rfl, List.prefix_rfl⟩
  queues name present := by rwa [same.hasQueue]

/-- A binding is appended or present already, so the earlier ones stay in front. -/
theorem bindings_bind_prefix (x : Exchange) (binding : Binding)
    : x.bindings <+: (bind x binding).bindings := by
  unfold bind
  split
  · exact List.prefix_rfl
  · exact List.prefix_append _ _

/-- Binding repeats no binding, since it first looks whether the binding is there. -/
theorem nodup_bindings_bind {x : Exchange} (once : x.bindings.Nodup) (binding : Binding)
    : (bind x binding).bindings.Nodup := by
  unfold bind
  split
  · exact once
  · rename_i absent
    refine List.nodup_append.mpr ⟨once, by simp, ?_⟩
    rintro other member new listed rfl
    exact absent (List.mem_singleton.mp listed ▸ member)

/-- A declaration adds to its own exchange, and spares the others. -/
theorem extends_declare (declared : b.declare s = .ok after) : b.Extends after where
  exchanges name x found := by
    rw [exchange?_declare declared]
    by_cases here : name = s.exchange
    · subst here
      refine ⟨_, if_pos rfl, ?_⟩
      simp only [boundExchange, found]
      exact ⟨kind_bind x _, bindings_bind_prefix x _⟩
    · exact ⟨x, by rw [if_neg here, found], rfl, List.prefix_rfl⟩
  queues name present := (hasQueue_declare declared name).mpr (.inl present)

-------------------------------------------------------------------------------
-- Channels that stand
-------------------------------------------------------------------------------

/-- A channel stands when all that it declares is there. -/
structure Stands (b : State) (s : Settings) : Prop where
  named : s.exchange ≠ "" ∧ s.queue ≠ ""
  declares : b.Declares s
  queue : b.hasQueue s.queue

/-- What stands goes on standing while the topology only grows. -/
theorem Stands.mono (stands : b.Stands s) (grown : b.Extends after) : after.Stands s where
  named := stands.named
  declares := by
    obtain ⟨x, found, kind, member⟩ := stands.declares
    obtain ⟨y, found', kind', bindings⟩ := grown.exchanges s.exchange x found
    exact ⟨y, found', kind'.trans kind, bindings.subset member⟩
  queue := grown.queues s.queue stands.queue

/-- What was declared successfully stands right afterwards. -/
theorem stands_of_declare (declared : b.declare s = .ok after) : after.Stands s where
  named := by
    rw [← validate_eq_ok_iff]
    cases valid : s.validate with
    | ok _ => rfl
    | error e => simp [declare, valid, Bind.bind, Except.bind] at declared
  declares := (grows_declare declared).2
  queue := (hasQueue_declare declared s.queue).mpr (.inr rfl)

/-- There is one exchange of a name. -/
theorem exchange?_eq_of_mem (distinct : (b.exchanges.map Exchange.name).Nodup) {x y : Exchange}
    (found : b.exchange? name = some x) (member : y ∈ b.exchanges) (same : y.name = name)
    : y = x := by
  have named : x.name = name := by simpa using List.find?_some found
  exact List.inj_on_of_nodup_map distinct member (List.mem_of_find?_eq_some found)
    (same.trans named.symm)

/-- A channel that stands is declared again without any change. -/
theorem Stands.declare_eq (stands : b.Stands s)
    (distinct : (b.exchanges.map Exchange.name).Nodup)
    : b.declare s = .ok b := by
  obtain ⟨x, found, kind, member⟩ := stands.declares
  obtain ⟨q, present⟩ := Option.isSome_iff_exists.mp stands.queue
  have bound : (b.exchanges.map fun y =>
      if y.name = s.exchange then bind y ⟨s.key, s.queue⟩ else y) = b.exchanges := by
    refine (List.map_congr_left fun y listed => ?_).trans (List.map_id _)
    split
    · rename_i same
      rw [exchange?_eq_of_mem distinct found listed same, bind, if_pos member, id]
    · rfl
  have valid := validate_eq_ok_iff.mpr stands.named
  simp [declare, valid, declareExchange, found, kind, bound, declareQueue, present, Bind.bind,
    Except.bind]

-------------------------------------------------------------------------------
-- Well-formed topologies
-------------------------------------------------------------------------------

/-- Exchanges go by different names, no exchange has a binding twice, and every binding is of a
queue that exists. -/
structure WellFormed (b : State) : Prop where
  names : (b.exchanges.map Exchange.name).Nodup
  once : ∀ name x, b.exchange? name = some x → x.bindings.Nodup
  bound : b.Bound

/-- Well-formedness reads names and exchanges alone, so it follows the topology. -/
theorem WellFormed.same (h : b.WellFormed) (same : b.SameTopology after) : after.WellFormed where
  names := same.exchanges ▸ h.names
  once name x found := h.once name x (same.exchange? name ▸ found)
  bound name x found binding member := by
    rw [same.hasQueue]
    exact h.bound name x (same.exchange? name ▸ found) binding member

/-- A declaration adds its exchange unless there is one of that name. -/
theorem names_declare (declared : b.declare s = .ok after)
    : after.exchanges.map Exchange.name = b.exchanges.map Exchange.name
      ∨ b.exchange? s.exchange = none
        ∧ after.exchanges.map Exchange.name = b.exchanges.map Exchange.name ++ [s.exchange] := by
  obtain ⟨opened, exchange, rfl⟩ := of_declare declared
  rw [exchanges_declareQueue]
  unfold declareExchange at exchange
  split at exchange
  · rename_i fresh
    cases exchange
    exact .inr ⟨fresh, by simp⟩
  · split at exchange
    · cases exchange
      refine .inl ?_
      simp only [List.map_map]
      refine List.map_congr_left fun y _ => ?_
      by_cases same : y.name = s.exchange <;> simp [same, name_bind]
    · cases exchange

/-- A declaration keeps names unique, since it adds an exchange only where none of that name is
known, and binds to the queue it has just declared. -/
theorem WellFormed.declare (h : b.WellFormed) (declared : b.declare s = .ok after)
    : after.WellFormed where
  names := by
    rcases names_declare declared with same | ⟨fresh, added⟩
    · exact same ▸ h.names
    · rw [added]
      refine List.nodup_append.mpr ⟨h.names, by simp, ?_⟩
      rintro name member new listed rfl
      obtain ⟨x, known, named⟩ := List.mem_map.mp member
      have absent := List.find?_eq_none.mp fresh x known
      simp [named, List.mem_singleton.mp listed] at absent
  once name x found := by
    rw [exchange?_declare declared] at found
    split at found
    · obtain rfl := Option.some.inj found
      unfold boundExchange
      split
      · rename_i y known
        exact nodup_bindings_bind (h.once _ y known) _
      · simp
    · exact h.once name x found
  bound := (grows_declare declared).1.bound h.bound

-------------------------------------------------------------------------------
-- What declares nothing
-------------------------------------------------------------------------------

theorem SameTopology.refl (b : State) : b.SameTopology b :=
  ⟨rfl, rfl⟩

/-- Sameness of topologies composes. -/
theorem SameTopology.trans (first : b.SameTopology middle) (later : middle.SameTopology after)
    : b.SameTopology after :=
  ⟨later.exchanges.trans first.exchanges, later.names.trans first.names⟩

/-- What a queue holds is no part of the topology. -/
theorem sameTopology_modifyQueue (b : State) (name : String) (f : Queue → Queue)
    : b.SameTopology (b.modifyQueue name f) :=
  ⟨rfl, (b.alike_modifyQueue name f).names⟩

theorem sameTopology_modifySession (b : State) (number : Nat) (f : Session → Session)
    : b.SameTopology (b.modifySession number f) :=
  ⟨rfl, rfl⟩

/-- A fold keeps the topology if each of its steps does. -/
theorem sameTopology_foldl {α : Type} {f : State → α → State}
    (each : ∀ (b : State) a, b.SameTopology (f b a)) (as : List α) (b : State)
    : b.SameTopology (as.foldl f b) := by
  induction as generalizing b with
  | nil => exact .refl b
  | cons a as ih => exact (each b a).trans (ih _)

/-- Publishing pushes bodies and declares nothing. -/
theorem sameTopology_route {exchange key : String} {body : List UInt8}
    (routed : b.route exchange key body = .ok after)
    : b.SameTopology after := by
  unfold route at routed
  split at routed
  · cases routed
  · obtain rfl := Except.ok.inj routed
    exact sameTopology_foldl (fun b name => b.sameTopology_modifyQueue name _) _ b

/-- Returning messages changes what queues and sessions hold, and no declaration. -/
theorem sameTopology_returnAll (b : State) (queue : String) (consumer : Nat)
    : b.SameTopology (b.returnAll queue consumer) := by
  unfold returnAll
  split
  · exact .refl b
  · exact (b.sameTopology_modifyQueue queue _).trans
      (sameTopology_foldl
        (fun b (held : Pending) => b.sameTopology_modifySession held.session _) _ _)

end State

-------------------------------------------------------------------------------
-- Runs
-------------------------------------------------------------------------------

namespace Market

variable {m after : Market} {act : MarketAct}

/-- An act declares a channel or leaves the topology alone, by cases on what it does. -/
theorem Turn.same_or_declares (turn : m.Turn act after)
    : m.broker.SameTopology after.broker
      ∨ ∃ s declared, m.broker.declare s = .ok declared
          ∧ declared.SameTopology after.broker := by
  cases turn with
  | connectProducer known fresh declared => exact .inr ⟨_, _, declared, .refl _⟩
  | connectConsumer known ended declared => exact .inr ⟨_, _, declared, rfl, rfl⟩
  | publish known connected routed => exact .inl (State.sameTopology_route routed)
  | handBack begun => exact .inl (State.sameTopology_returnAll _ _ _)
  | purge known connected => exact .inl (State.sameTopology_modifyQueue _ _ _)
  | receive waiting known declared taken =>
      exact .inl ⟨rfl, (State.alike_handOver _ _ _ _).names⟩
  | ack declared held | nack declared held =>
      exact .inl ⟨rfl, (State.alike_settleAt _ _ _ _).names⟩
  | _ => exact .inl ⟨rfl, rfl⟩

/-- A turn only ever extends the topology: it leaves it alone or is one declaration. -/
theorem Turn.grown (turn : m.Turn act after) : m.broker.Extends after.broker := by
  rcases turn.same_or_declares with same | ⟨s, declared, outcome, same⟩
  · exact same.grown
  · exact (State.extends_declare outcome).trans same.grown

/-- Nothing declared is lost over a run, by induction on its turns. -/
theorem extends_run (m : Market) (acts : List MarketAct)
    : m.broker.Extends (m.run acts).broker := by
  have each {middle after : Market} {act : MarketAct} (before : m.broker.Extends middle.broker)
      (turn : middle.Turn act after)
      : m.broker.Extends after.broker :=
    before.trans turn.grown
  exact of_turns each (.refl _) acts

/-- Every turn keeps the topology well-formed; the only case to see is that of a declaration. -/
theorem wellFormed_turn (h : m.broker.WellFormed) (turn : m.Turn act after)
    : after.broker.WellFormed := by
  rcases turn.same_or_declares with same | ⟨s, declared, outcome, same⟩
  · exact h.same same
  · exact (h.declare outcome).same same

/-- A producer gets connected by declaring its channel. -/
theorem Turn.connected_producer (turn : m.Turn act after) {p : Producer}
    (member : p ∈ after.producers) (connected : p.connected)
    : p ∈ m.producers ∨ after.broker.Stands p.settings := by
  cases turn with
  | addProducer =>
      refine (List.mem_append.mp member).imp_right fun new => ?_
      rw [List.mem_singleton.mp new] at connected
      cases connected
  | connectProducer known fresh declared =>
      refine (List.mem_or_eq_of_mem_set member).imp_right ?_
      rintro rfl
      exact State.stands_of_declare declared
  | closeProducer known =>
      refine (List.mem_or_eq_of_mem_set member).imp_right ?_
      rintro rfl
      cases connected
  | _ => exact .inl member

/-- A consumer gets connected by declaring its channel. -/
theorem Turn.connected_consumer (turn : m.Turn act after) {c : Consumer}
    (member : c ∈ after.consumers) (connected : c.session.isSome)
    : c ∈ m.consumers ∨ after.broker.Stands c.settings := by
  cases turn with
  | addConsumer =>
      refine (List.mem_append.mp member).imp_right fun new => ?_
      rw [List.mem_singleton.mp new] at connected
      cases connected
  | connectConsumer known ended declared =>
      refine (List.mem_or_eq_of_mem_set member).imp_right ?_
      rintro rfl
      exact (State.stands_of_declare declared).mono (State.SameTopology.grown ⟨rfl, rfl⟩)
  | leave known connected =>
      refine (List.mem_or_eq_of_mem_set member).imp_right ?_
      rintro rfl
      cases ‹Option.isSome none = true›
  | _ => exact .inl member

/-- The topology is well-formed, and the channels of all who are connected stand. -/
structure Wired (m : Market) : Prop where
  broker : m.broker.WellFormed
  producers : ∀ p ∈ m.producers, p.connected → m.broker.Stands p.settings
  consumers : ∀ c ∈ m.consumers, c.session.isSome → m.broker.Stands c.settings

theorem Wired.start : Wired {} where
  broker := ⟨.nil, nofun, nofun⟩
  producers _ member := by cases member
  consumers _ member := by cases member

/-- One turn keeps clients wired: a client connected before keeps what stood for it, and one that
connects in this turn has just declared it. -/
theorem Wired.turn (h : m.Wired) (turn : m.Turn act after) : after.Wired where
  broker := wellFormed_turn h.broker turn
  producers p member connected := by
    rcases turn.connected_producer member connected with earlier | stands
    · exact (h.producers p earlier connected).mono turn.grown
    · exact stands
  consumers c member connected := by
    rcases turn.connected_consumer member connected with earlier | stands
    · exact (h.consumers c earlier connected).mono turn.grown
    · exact stands

/-- In every reachable market, what a connected client has declared stands. -/
theorem wired_run (acts : List MarketAct) : (run {} acts).Wired :=
  of_turns .turn .start acts

-------------------------------------------------------------------------------
-- Connects and closes
-------------------------------------------------------------------------------

/-- An act that connects a client, with success, to the channel of its settings. -/
inductive Connects (m : Market) : MarketAct → Settings → Prop where
  | producer {place : Nat} {p : Producer} {result : Producer × State}
    (known : m.producers[place]? = some p) (outcome : p.connect m.broker = .ok result)
    : Connects m (.client (.connectProducer place)) p.settings
  | consumer {place : Nat} {c : Consumer} {result : Consumer × State}
    (known : m.consumers[place]? = some c) (outcome : c.connect m.broker = .ok result)
    : Connects m (.client (.connectConsumer place)) c.settings

/-- The acts that connect a client, with success or not. -/
inductive IsConnect : MarketAct → Prop where
  | producer (place : Nat) : IsConnect (.client (.connectProducer place))
  | consumer (place : Nat) : IsConnect (.client (.connectConsumer place))

/-- A producer that connects finds its declaration standing: it was connected already, or has just
declared. -/
theorem stands_of_connect_producer {p : Producer} {b : State} {result : Producer × State}
    (stands : p.connected → b.Stands p.settings) (outcome : p.connect b = .ok result)
    : result.2.Stands p.settings := by
  unfold Producer.connect at outcome
  split at outcome
  · rename_i connected
    cases outcome
    exact stands connected
  · cases declared : b.declare p.settings with
    | error e => simp [declared, Except.map] at outcome
    | ok after =>
        simp only [declared, Except.map, Except.ok.injEq] at outcome
        exact outcome ▸ State.stands_of_declare declared

/-- As `stands_of_connect_producer`, for a consumer; the session it opens is no part of the
topology. -/
theorem stands_of_connect_consumer {c : Consumer} {b : State} {result : Consumer × State}
    (stands : c.session.isSome → b.Stands c.settings) (outcome : c.connect b = .ok result)
    : result.2.Stands c.settings := by
  unfold Consumer.connect at outcome
  split at outcome
  · rename_i connected
    cases outcome
    exact stands (by simp [connected])
  · cases declared : b.declare c.settings with
    | error e => simp [declared, Except.map] at outcome
    | ok after =>
        simp only [declared, Except.map, Except.ok.injEq] at outcome
        rw [← outcome]
        exact (State.stands_of_declare declared).mono (State.SameTopology.grown ⟨rfl, rfl⟩)

/-- What a client connects to stands from then on. -/
theorem Connects.stands {s : Settings} (connects : m.Connects act s) (h : m.Wired)
    : (m.step act).broker.Stands s := by
  cases connects with
  | @producer place p result known outcome =>
      have next : (m.step (.client (.connectProducer place))).broker = result.2 := by
        simp [step, serve, asProducer, known, outcome, orSame, Except.map]
      rw [next]
      exact stands_of_connect_producer (h.producers p (List.mem_of_getElem? known)) outcome
  | @consumer place c result known outcome =>
      have next : (m.step (.client (.connectConsumer place))).broker = result.2 := by
        simp [step, serve, asConsumer, known, outcome, orSame, Except.map]
      rw [next]
      exact stands_of_connect_consumer (h.consumers c (List.mem_of_getElem? known)) outcome

/-- Connecting a producer for which everything stands succeeds and leaves the broker as it is. -/
theorem connect_producer_of_stands {p : Producer} {b : State} (stands : b.Stands p.settings)
    (distinct : (b.exchanges.map Exchange.name).Nodup)
    : ∃ after, p.connect b = .ok (after, b) := by
  unfold Producer.connect
  split
  · exact ⟨_, rfl⟩
  · exact ⟨_, by rw [stands.declare_eq distinct]; rfl⟩

/-- Connecting a consumer for which everything stands succeeds and changes neither exchanges nor
queues; it does open a session. -/
theorem connect_consumer_of_stands {c : Consumer} {b : State} (stands : b.Stands c.settings)
    (distinct : (b.exchanges.map Exchange.name).Nodup)
    : ∃ after opened, c.connect b = .ok (after, opened)
        ∧ opened.exchanges = b.exchanges ∧ opened.queues = b.queues := by
  unfold Consumer.connect
  split
  · exact ⟨_, _, rfl, rfl, rfl⟩
  · refine ⟨{ c with session := some (b.sessions.length + 1) },
      b.openSession c.settings.prefetch.toNat, ?_, rfl, rfl⟩
    rw [stands.declare_eq distinct]
    rfl

/-- A connect that does not succeed changes nothing, for anyone. -/
theorem IsConnect.step_eq (connect : IsConnect act) (failed : ¬∃ s, m.Connects act s)
    : m.step act = m := by
  cases connect with
  | producer place =>
      simp only [step, serve, asProducer]
      cases known : m.producers[place]? with
      | none => rfl
      | some p =>
          cases outcome : p.connect m.broker with
          | ok result => exact absurd ⟨_, .producer known outcome⟩ failed
          | error e => simp [outcome, Except.map, orSame]
  | consumer place =>
      simp only [step, serve, asConsumer]
      cases known : m.consumers[place]? with
      | none => rfl
      | some c =>
          cases outcome : c.connect m.broker with
          | ok result => exact absurd ⟨_, .consumer known outcome⟩ failed
          | error e => simp [outcome, Except.map, orSame]

/-- An act that moves nothing on a queue leaves the queue there, as it is. -/
theorem queue?_step_of_still {name : String} {q : Queue} (still : m.actMoves name act = [])
    (present : m.broker.queue? name = some q)
    : (m.step act).broker.queue? name = some q := by
  have stays : (m.step act).broker.hasQueue name :=
    (m.turn_step act).grown.queues name (by simp [State.hasQueue, present])
  obtain ⟨after, found⟩ := Option.isSome_iff_exists.mp stays
  have same := m.queueOf_step act name
  rw [still, Queue.afterAll_nil] at same
  simpa [State.queueOf, found, present] using same

/-- Connecting once more to a channel. -/
structure Reconnects (b : State) (s : Settings) : Prop where
  stands : b.Stands s
  producer : ∀ p : Producer, p.settings = s → ∃ after, p.connect b = .ok (after, b)
  consumer
    : ∀ c : Consumer, c.settings = s →
        ∃ after opened, c.connect b = .ok (after, opened)
          ∧ opened.exchanges = b.exchanges ∧ opened.queues = b.queues

/-- What connects and closes make of exchanges, bindings and queues, after some acts. -/
structure KeepsTopology (acts : List MarketAct) : Prop where
  /-- A connect, as it goes on, takes effect as a whole or not at all. -/
  producerWhole
    : ∀ p : Producer,
        Step.Whole p.connecting (p, (run {} acts).broker) (p.connect (run {} acts).broker)
  consumerWhole
    : ∀ c : Consumer,
        Step.Whole c.connecting (c, (run {} acts).broker) (c.connect (run {} acts).broker)
  /-- It fails for an empty name or a declared exchange of another kind, and for nothing else. -/
  producerRefused_iff
    : ∀ (p : Producer) e, p.connect (run {} acts).broker = .error e
        ↔ p.connected = false ∧ (run {} acts).broker.Refuses p.settings e
  consumerRefused_iff
    : ∀ (c : Consumer) e, c.connect (run {} acts).broker = .error e
        ↔ c.session = none ∧ (run {} acts).broker.Refuses c.settings e
  /-- Then exchanges, queues and clients are as they were. -/
  refused
    : ∀ act, IsConnect act → (¬∃ s, (run {} acts).Connects act s) →
        (run {} acts).step act = run {} acts
  /-- Exchanges keep their kinds and bindings, and queues stay. -/
  grown
    : ∀ earlier later, acts = earlier ++ later →
        (run {} earlier).broker.Extends (run {} acts).broker
  wellFormed : (run {} acts).broker.WellFormed
  /-- A connect, or the close of a producer, leaves every queue with what is on it. -/
  kept
    : ∀ act, (IsConnect act ∨ ∃ place, act = .client (.closeProducer place)) →
        ∀ name q, (run {} acts).broker.queue? name = some q →
          ((run {} acts).step act).broker.queue? name = some q
  /-- Whoever connects to a channel that someone connected to before changes nothing there. -/
  again
    : ∀ earlier act later s, acts = earlier ++ act :: later → (run {} earlier).Connects act s →
        Reconnects (run {} acts).broker s

/-- Connects and closes keep the topology after any acts of any clients. -/
theorem keeps_topology (acts : List MarketAct) : KeepsTopology acts where
  producerWhole p := Step.whole_of_eq (p.runAll_connecting _)
  consumerWhole c := Step.whole_of_eq (c.runAll_connecting _)
  producerRefused_iff _ _ := Producer.connect_eq_error_iff
  consumerRefused_iff _ _ := Consumer.connect_eq_error_iff
  refused _ connect failed := connect.step_eq failed
  grown earlier later split := by
    rw [split, run_append]
    exact extends_run _ later
  wellFormed := (wired_run acts).broker
  kept act joins name q present := by
    rcases joins with (_ | _) | ⟨place, rfl⟩ <;> exact queue?_step_of_still rfl present
  again earlier act later s split connects := by
    have stood := connects.stands (wired_run earlier)
    have stands : (run {} acts).broker.Stands s := by
      rw [split, run_append]
      exact stood.mono (extends_run _ later)
    have distinct := (wired_run acts).broker.names
    refine ⟨stands, ?_, ?_⟩
    · rintro p rfl
      exact connect_producer_of_stands stands distinct
    · rintro c rfl
      exact connect_consumer_of_stands stands distinct

end Market

end Almanac.Broker
