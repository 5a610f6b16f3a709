import Almanac.Proofs.Broker.Conservation
import Almanac.Proofs.Broker.Pattern

/-! Routing: what is published on a connected channel reaches the queues that are bound for it.
A channel stays declared as it was connected, and every binding is of a queue that exists, so no
copy is missed. A routing key fits itself as a pattern, so the channel's own queue is always among
those that receive.
-/

namespace Almanac.Broker

-------------------------------------------------------------------------------
-- Receivers
-------------------------------------------------------------------------------

namespace Exchange

/-- The queues that messages under a routing key go to: every one that is bound to a fanout
exchange, and those with a fitting pattern on a topic exchange or the same key on any other. -/
inductive Receives (x : Exchange) (key queue : String) : Prop where
  | fanout {bound : String} (kind : x.kind = .fanout) (member : ⟨bound, queue⟩ ∈ x.bindings)
  | topic {pattern : String} (kind : x.kind = .topic) (member : ⟨pattern, queue⟩ ∈ x.bindings)
    (fits : Topic.fits pattern key)
  | direct (kind : x.kind = .direct) (member : ⟨key, queue⟩ ∈ x.bindings)
  | custom {name : String} (kind : x.kind = .custom name) (member : ⟨key, queue⟩ ∈ x.bindings)

variable {x : Exchange} {key queue : String}

/-- A binding whose pattern takes the key makes its queue a receiver, by the kind of the
exchange. -/
theorem receives_of_takes {bound : String} (member : ⟨bound, queue⟩ ∈ x.bindings)
    (taken : takes x.kind ⟨bound, queue⟩ key)
    : x.Receives key queue := by
  cases kind : x.kind with
  | fanout => exact .fanout kind member
  | topic => exact .topic kind member (by simpa [takes, kind] using taken)
  | direct =>
      obtain rfl : bound = key := by simpa [takes, kind] using taken
      exact .direct kind member
  | custom name =>
      obtain rfl : bound = key := by simpa [takes, kind] using taken
      exact .custom kind member

/-- Every receiver comes from a binding that takes the key; converse of `receives_of_takes`. -/
theorem Receives.exists_binding (h : x.Receives key queue)
    : ∃ bound, ⟨bound, queue⟩ ∈ x.bindings ∧ takes x.kind ⟨bound, queue⟩ key := by
  cases h with
  | fanout kind member => exact ⟨_, member, by simp [takes, kind]⟩
  | topic kind member fits => exact ⟨_, member, by simpa [takes, kind] using fits⟩
  | direct kind member => exact ⟨_, member, by simp [takes, kind]⟩
  | custom kind member => exact ⟨_, member, by simp [takes, kind]⟩

/-- The computed targets are the receivers: dropping repeated names leaves membership as it is. -/
theorem mem_targets_iff : queue ∈ x.targets key ↔ x.Receives key queue := by
  simp only [targets, List.mem_eraseDups, List.mem_map, List.mem_filter]
  constructor
  · rintro ⟨⟨bound, _⟩, ⟨member, taken⟩, rfl⟩
    exact receives_of_takes member taken
  · intro receives
    obtain ⟨bound, member, taken⟩ := receives.exists_binding
    exact ⟨⟨bound, queue⟩, ⟨member, taken⟩, rfl⟩

/-- A queue bound by a key receives what is published under it, on an exchange of any kind. -/
theorem receives_of_mem (member : ⟨key, queue⟩ ∈ x.bindings) : x.Receives key queue := by
  apply receives_of_takes member
  cases kind : x.kind <;> simp [takes, Topic.fits_self]

end Exchange

-------------------------------------------------------------------------------
-- Declarations
-------------------------------------------------------------------------------

namespace State

variable {b after : State} {s : Settings}

/-- Every binding is of a queue that exists. -/
def Bound (b : State) : Prop :=
  ∀ name x, b.exchange? name = some x → ∀ binding ∈ x.bindings, b.hasQueue binding.queue

/-- Whether a channel is declared: its exchange with its kind and its binding. -/
def Declares (b : State) (s : Settings) : Prop :=
  ∃ x, b.exchange? s.exchange = some x ∧ x.kind = s.kind ∧ ⟨s.key, s.queue⟩ ∈ x.bindings

/-- The exchange of a channel with its binding, once the channel is declared. -/
def boundExchange (b : State) (s : Settings) : Exchange :=
  match b.exchange? s.exchange with
  | some x => bind x ⟨s.key, s.queue⟩
  | none => ⟨s.exchange, s.kind, [⟨s.key, s.queue⟩]⟩

/-- Binding adds the one binding at most, since a binding that is there already is not repeated. -/
theorem mem_bind {x : Exchange} {binding other : Binding}
    : other ∈ (bind x binding).bindings ↔ other ∈ x.bindings ∨ other = binding := by
  unfold bind
  split
  · rename_i present
    constructor
    · exact .inl
    · rintro (member | rfl)
      · exact member
      · exact present
  · simp

theorem kind_bind (x : Exchange) (binding : Binding) : (bind x binding).kind = x.kind := by
  unfold bind
  split <;> rfl

theorem name_bind (x : Exchange) (binding : Binding) : (bind x binding).name = x.name := by
  unfold bind
  split <;> rfl

/-- Looking a name up after binding at `declared` is looking it up before; names are kept by
`bind`, so this is by induction on the exchanges. -/
theorem find?_map_bind (exchanges : List Exchange) (declared name : String) (binding : Binding)
    : (exchanges.map fun y => if y.name = declared then bind y binding else y).find? (·.name = name)
      = (exchanges.find? (·.name = name)).map fun y =>
          if name = declared then bind y binding else y := by
  induction exchanges with
  | nil => rfl
  | cons x rest ih =>
      by_cases here : x.name = declared <;> by_cases same : x.name = name <;>
        simp_all [name_bind]

/-- A declaration concerns the exchange that it names alone. -/
theorem exchange?_declareExchange (declared : b.declareExchange s = .ok after) (name : String)
    : after.exchange? name
      = if name = s.exchange then some (b.boundExchange s) else b.exchange? name := by
  unfold declareExchange at declared
  cases found : b.exchange? s.exchange with
  | none =>
      simp only [found, Except.ok.injEq] at declared
      subst declared
      simp only [exchange?, List.find?_append, boundExchange] at found ⊢
      by_cases same : name = s.exchange
      · subst same
        simp [found]
      · simp [same, Ne.symm same]
  | some x =>
      simp only [found] at declared
      split at declared
      · obtain rfl := Except.ok.inj declared
        simp only [exchange?, find?_map_bind, boundExchange] at found ⊢
        by_cases same : name = s.exchange
        · subst same
          simp [found]
        · simp [same]
      · cases declared

/-- A successful declaration leaves an exchange of the declared kind: a known one of another kind
is refused, and an unknown one is made of it. -/
theorem kind_boundExchange (declared : b.declareExchange s = .ok after)
    : (b.boundExchange s).kind = s.kind := by
  unfold declareExchange at declared
  unfold boundExchange
  split at declared
  · rename_i found
    simp [found]
  · rename_i x found
    split at declared
    · rename_i same
      simpa [found, kind_bind] using same
    · cases declared

/-- The declared exchange holds what it held before and the declared binding. -/
theorem mem_boundExchange {binding : Binding}
    : binding ∈ (b.boundExchange s).bindings
      ↔ (∃ x, b.exchange? s.exchange = some x ∧ binding ∈ x.bindings)
        ∨ binding = ⟨s.key, s.queue⟩ := by
  unfold boundExchange
  cases b.exchange? s.exchange <;> simp [mem_bind]

/-- Declaring a queue adds its name to the known ones and no other name. -/
theorem hasQueue_declareQueue (b : State) (declared name : String)
    : (b.declareQueue declared).hasQueue name ↔ b.hasQueue name ∨ name = declared := by
  unfold declareQueue
  cases known : b.queue? declared with
  | some q =>
      constructor
      · exact .inl
      · rintro (present | rfl)
        · exact present
        · simp [hasQueue, known]
  | none =>
      simp only [hasQueue, queue?, List.lookup_append]
      cases found : b.queues.lookup name with
      | some q => simp
      | none =>
          by_cases same : name = declared
          · simp [same]
          · have miss : (name == declared) = false := by simpa using same
            simp [List.lookup_cons, same, miss]

theorem exchanges_declareQueue (b : State) (name : String)
    : (b.declareQueue name).exchanges = b.exchanges := by
  unfold declareQueue
  split <;> rfl

/-- After a declaration, the declared exchange is the bound one and every other is as before,
since declaring the queue touches no exchange. -/
theorem exchange?_declare (declared : b.declare s = .ok after) (name : String)
    : after.exchange? name
      = if name = s.exchange then some (b.boundExchange s) else b.exchange? name := by
  obtain ⟨middle, first, rfl⟩ := of_declare declared
  rw [← exchange?_declareExchange first, exchange?, exchanges_declareQueue, exchange?]

/-- After a declaration the known queues are those from before and the declared one. -/
theorem hasQueue_declare (declared : b.declare s = .ok after) (name : String)
    : after.hasQueue name ↔ b.hasQueue name ∨ name = s.queue := by
  obtain ⟨middle, first, rfl⟩ := of_declare declared
  rw [hasQueue_declareQueue, hasQueue, queue?, queues_declareExchange first, hasQueue, queue?]

/-- A broker grows when declared channels stay declared and bindings stay bindings of queues that
exist. -/
structure Grows (b after : State) : Prop where
  declares : ∀ s, b.Declares s → after.Declares s
  bound : b.Bound → after.Bound

theorem Grows.refl (b : State) : b.Grows b :=
  ⟨fun _ => id, id⟩

/-- A broker with the same exchanges and the same names of queues has grown. -/
theorem Grows.of_same (exchanges : after.exchanges = b.exchanges)
    (queues : ∀ name, after.hasQueue name = b.hasQueue name)
    : b.Grows after := by
  have same (name : String) : after.exchange? name = b.exchange? name := by
    simp only [exchange?, exchanges]
  refine ⟨fun s ⟨x, found, declared⟩ => ⟨x, by rw [same, found], declared⟩, ?_⟩
  intro bound name x found binding member
  rw [queues]
  exact bound name x (same name ▸ found) binding member

/-- A declaration declares its channel and lets the broker grow. -/
theorem grows_declare (declared : b.declare s = .ok after) : b.Grows after ∧ after.Declares s := by
  obtain ⟨middle, first, -⟩ := of_declare declared
  have kind := kind_boundExchange first
  have found := exchange?_declare declared
  refine ⟨⟨?_, ?_⟩, ?_⟩
  · rintro other ⟨x, known, same, member⟩
    by_cases here : other.exchange = s.exchange
    · refine ⟨b.boundExchange s, by rw [found, if_pos here], ?_, ?_⟩
      · rw [boundExchange, ← here, known, kind_bind, same]
      · exact mem_boundExchange.mpr (.inl ⟨x, here ▸ known, member⟩)
    · exact ⟨x, by rw [found, if_neg here, known], same, member⟩
  · intro bound name x known binding member
    rw [hasQueue_declare declared]
    rw [found] at known
    split at known
    · obtain rfl := Option.some.inj known
      rcases mem_boundExchange.mp member with ⟨old, earlier, there⟩ | rfl
      · exact .inl (bound _ old earlier binding there)
      · exact .inr rfl
    · exact .inl (bound name x known binding member)
  · exact ⟨b.boundExchange s, by rw [found, if_pos rfl], kind, mem_boundExchange.mpr (.inr rfl)⟩

-------------------------------------------------------------------------------
-- What declares nothing
-------------------------------------------------------------------------------

/-- Growth composes, clause by clause. -/
theorem Grows.trans {middle : State} (first : b.Grows middle) (later : middle.Grows after)
    : b.Grows after :=
  ⟨fun s declares => later.declares s (first.declares s declares),
    fun bound => later.bound (first.bound bound)⟩

theorem grows_modifyQueue (b : State) (name : String) (f : Queue → Queue)
    : b.Grows (b.modifyQueue name f) :=
  .of_same rfl fun other => b.hasQueue_modifyQueue name other f

theorem grows_modifySession (b : State) (number : Nat) (f : Session → Session)
    : b.Grows (b.modifySession number f) :=
  .of_same rfl fun _ => rfl

/-- A fold grows the broker if each step does, by induction on what is folded over. -/
theorem grows_foldl {α : Type} {f : State → α → State} (each : ∀ (b : State) a, b.Grows (f b a))
    (as : List α) (b : State)
    : b.Grows (as.foldl f b) := by
  induction as generalizing b with
  | nil => exact .refl b
  | cons a as ih => exact (each b a).trans (ih _)

/-- Routing declares nothing: it only pushes onto queues that are known. -/
theorem grows_route {exchange key : String} {body : List UInt8}
    (routed : b.route exchange key body = .ok after)
    : b.Grows after := by
  unfold route at routed
  split at routed
  · cases routed
  · obtain rfl := Except.ok.inj routed
    exact grows_foldl (fun b name => b.grows_modifyQueue name _) _ b

/-- Settling changes one queue and one session, neither of which is a declaration. -/
theorem grows_settle {queue : String} {tag : Nat} {requeue : Bool}
    (settled : b.settle queue tag requeue = .ok after)
    : b.Grows after := by
  unfold settle at settled
  split at settled
  · cases settled
  · rename_i q known
    cases outcome : q.settle tag requeue with
    | error e => simp [outcome, Except.map] at settled
    | ok result =>
        simp only [outcome, Except.map, Except.ok.injEq] at settled
        rw [← settled]
        exact (b.grows_modifyQueue queue _).trans (grows_modifySession _ _ _)

/-- Returning what a consumer holds is one change to a queue and a fold over sessions. -/
theorem grows_returnAll (b : State) (queue : String) (consumer : Nat)
    : b.Grows (b.returnAll queue consumer) := by
  unfold returnAll
  split
  · exact .refl b
  · exact (b.grows_modifyQueue queue _).trans
      (grows_foldl (fun b (held : Pending) => b.grows_modifySession held.session _) _ _)

theorem grows_poll {session : Nat} (polled : b.poll? session = some after) : b.Grows after := by
  obtain ⟨s, -, rfl⟩ := Option.map_eq_some_iff.mp polled
  exact b.grows_modifySession session _

/-- A delivery changes the queue it is taken from and the session it goes to. -/
theorem grows_receive {c : Consumer} {session : Nat} {d : Delivery}
    (received : c.receive? b session = some (d, after))
    : b.Grows after := by
  obtain ⟨q, -, delivered⟩ := Option.bind_eq_some_iff.mp received
  obtain ⟨⟨p, rest⟩, -, eq⟩ := Option.map_eq_some_iff.mp delivered
  obtain ⟨-, rfl⟩ := Prod.mk.inj eq
  exact (b.grows_modifyQueue _ _).trans (grows_modifySession _ _ _)

end State

-------------------------------------------------------------------------------
-- Connected channels stay declared
-------------------------------------------------------------------------------

namespace Market

/-- Every binding is of a queue that exists, and the channel of every connected producer is
declared. -/
structure Declared (m : Market) : Prop where
  bound : m.broker.Bound
  connected : ∀ p ∈ m.producers, p.connected → m.broker.Declares p.settings

variable {m after : Market}

/-- Channels stay declared when a broker grows and no other producer is connected. -/
theorem Declared.of_grows (h : m.Declared) (grows : m.broker.Grows after.broker)
    (known : ∀ p ∈ after.producers, p.connected → p ∈ m.producers)
    : after.Declared where
  bound := grows.bound h.bound
  connected p member connected :=
    grows.declares p.settings (h.connected p (known p member connected) connected)

/-- Over an unchanged broker, only newly connected producers have something to show. -/
theorem Declared.of_same (h : m.Declared) (same : after.broker = m.broker)
    (known : ∀ p ∈ after.producers, p.connected → p ∈ m.producers)
    : after.Declared :=
  h.of_grows (same ▸ .refl m.broker) known

theorem Declared.onBroker (h : m.Declared) {broker : State} (grows : m.broker.Grows broker)
    : (m.onBroker broker).Declared :=
  h.of_grows grows fun _ member _ => member

/-- A call that may be refused keeps the invariant if its success does, since a refusal leaves the
market as it was. -/
theorem Declared.orSame (h : m.Declared) {ε α : Type} {outcome : Except ε α} {next : α → Market}
    (each : ∀ result, outcome = .ok result → (next result).Declared)
    : (m.orSame (outcome.map next)).Declared := by
  cases outcome with
  | error e => exact h
  | ok result => exact each result rfl

/-- An act of the producer at a place keeps the invariant if it does so for every known producer;
at an empty place nothing happens. -/
theorem Declared.asProducer (h : m.Declared) {place : Nat} {act : Producer → Market}
    (each : ∀ p ∈ m.producers, (act p).Declared)
    : (m.asProducer place act).Declared := by
  unfold Market.asProducer
  cases present : m.producers[place]? with
  | none => exact h
  | some p => exact each p (List.mem_of_getElem? present)

/-- An act of the consumer at a place keeps the invariant if it does so for any consumer. -/
theorem Declared.asConsumer (h : m.Declared) {place : Nat} {act : Consumer → Market}
    (each : ∀ c, (act c).Declared)
    : (m.asConsumer place act).Declared := by
  unfold Market.asConsumer
  cases m.consumers[place]? with
  | none => exact h
  | some c => exact each c

/-- A producer that connects declares its channel, and those of the others stay declared. -/
theorem Declared.connectProducer (h : m.Declared) {p next : Producer} {broker : State} {place : Nat}
    (known : p ∈ m.producers) (outcome : p.connect m.broker = .ok (next, broker))
    : Declared { m with broker, producers := m.producers.set place next } := by
  unfold Producer.connect at outcome
  split at outcome
  · cases outcome
    refine h.of_same rfl ?_
    intro other member _
    exact (List.mem_or_eq_of_mem_set member).elim id fun same => same ▸ known
  · cases declared : m.broker.declare p.settings with
    | error e => simp [declared, Except.map] at outcome
    | ok middle =>
        simp only [declared, Except.map, Except.ok.injEq, Prod.mk.injEq] at outcome
        obtain ⟨rfl, rfl⟩ := outcome
        obtain ⟨grows, declares⟩ := State.grows_declare declared
        refine ⟨grows.bound h.bound, fun other member connected => ?_⟩
        rcases List.mem_or_eq_of_mem_set member with earlier | rfl
        · exact grows.declares _ (h.connected other earlier connected)
        · exact declares

/-- A connecting consumer declares and then opens a session, and both let the broker grow. -/
theorem Declared.connectConsumer (h : m.Declared) {c next : Consumer} {broker : State}
    (outcome : c.connect m.broker = .ok (next, broker)) (place : Nat) (streams : List (Nat × Nat))
    : Declared { m with broker, consumers := m.consumers.set place next, streams } := by
  unfold Consumer.connect at outcome
  split at outcome
  · cases outcome
    exact h.of_same rfl fun _ member _ => member
  · cases declared : m.broker.declare c.settings with
    | error e => simp [declared, Except.map] at outcome
    | ok middle =>
        simp only [declared, Except.map, Except.ok.injEq, Prod.mk.injEq] at outcome
        obtain ⟨-, rfl⟩ := outcome
        refine h.of_grows ((State.grows_declare declared).1.trans ?_) fun _ member _ => member
        exact .of_same rfl fun _ => rfl

/-- What a client does keeps connected channels declared, by cases on the act. -/
theorem Declared.serve (h : m.Declared) (act : ClientAct) : (m.serve act).Declared := by
  cases act with
  | addProducer settings =>
      refine h.of_same rfl ?_
      intro p member connected
      rcases List.mem_append.mp member with earlier | new
      · exact earlier
      · rw [List.mem_singleton.mp new] at connected
        cases connected
  | addConsumer settings => exact h.of_grows (.of_same rfl fun _ => rfl) fun _ member _ => member
  | connectProducer place =>
      apply h.asProducer
      intro p known
      apply h.orSame
      rintro ⟨next, broker⟩ outcome
      exact h.connectProducer known outcome
  | publish place body =>
      apply h.asProducer
      intro p _
      apply h.orSame
      intro broker outcome
      unfold Producer.publish at outcome
      split at outcome
      · exact h.onBroker (State.grows_route outcome)
      · cases outcome
  | closeProducer place =>
      apply h.asProducer
      intro p _
      refine h.of_same rfl ?_
      intro other member connected
      rcases List.mem_or_eq_of_mem_set member with earlier | rfl
      · exact earlier
      · cases connected
  | connectConsumer place =>
      apply h.asConsumer
      intro c
      apply h.orSame
      rintro ⟨next, broker⟩ outcome
      exact h.connectConsumer outcome place _
  | poll place session =>
      simp only [Market.serve]
      split
      · cases polled : m.broker.poll? session with
        | none => exact h
        | some broker => exact h.onBroker (State.grows_poll polled)
      · exact h
  | giveUp place session =>
      simp only [Market.serve]
      split
      · exact h.onBroker (State.grows_modifySession _ _ _)
      · exact h
  | purge place =>
      apply h.asConsumer
      intro c
      apply h.orSame
      rintro ⟨count, broker⟩ outcome
      unfold Consumer.purge at outcome
      split at outcome
      · cases outcome
      · cases outcome
        exact h.onBroker (State.grows_modifyQueue _ _ _)
  | leave place =>
      apply h.asConsumer
      intro c
      split
      · exact h.of_same rfl fun _ member _ => member
      · exact h
  | handBack queue consumer =>
      simp only [Market.serve]
      split
      · exact h.of_grows (State.grows_returnAll _ _ _) fun _ member _ => member
      · exact h

/-- One step of the market keeps what its producers declared: calls by `Declared.serve`, and a
delivery because it lets the broker grow. -/
theorem Declared.step (h : m.Declared) (act : MarketAct) : (m.step act).Declared := by
  cases act with
  | client act => exact h.serve act
  | receive place session =>
      cases received : m.receive? place session with
      | none => simpa [Market.step, received] using h
      | some result =>
          obtain ⟨d, next⟩ := result
          simp only [Market.step, received, Option.map_some, Option.getD_some]
          unfold Market.receive? at received
          split at received
          · obtain ⟨c, -, delivered⟩ := Option.bind_eq_some_iff.mp received
            obtain ⟨⟨_, broker⟩, taken, eq⟩ := Option.map_eq_some_iff.mp delivered
            obtain ⟨-, rfl⟩ := Prod.mk.inj eq
            exact h.onBroker (State.grows_receive taken)
          · cases received
  | ack d => exact h.orSame fun broker settled => h.onBroker (State.grows_settle settled)
  | nack d requeue => exact h.orSame fun broker settled => h.onBroker (State.grows_settle settled)

/-- Connected channels are declared after any acts, by induction on the acts. -/
theorem Declared.run (h : m.Declared) (acts : List MarketAct) : (m.run acts).Declared := by
  induction acts generalizing m with
  | nil => exact h
  | cons act acts ih => exact ih (h.step act)

/-- The empty market meets the invariant, as it has neither exchanges nor producers. -/
theorem Declared.start : Declared {} where
  bound _ _ found := by cases found
  connected _ member := by cases member

-------------------------------------------------------------------------------
-- Publications
-------------------------------------------------------------------------------

/-- What a publication on a channel makes of a broker. -/
structure Publishes (b : State) (s : Settings) (body : List UInt8) (after : State) : Prop where
  /-- The channel's exchange is there, and the channel's own queue is one of its receivers. -/
  own : ∃ x, b.exchange? s.exchange = some x ∧ x.kind = s.kind ∧ x.Receives s.key s.queue
  /-- Each receiver exists and has one copy more, at its end and never delivered before. -/
  received
    : ∀ x, b.exchange? s.exchange = some x → ∀ name, x.Receives s.key name →
        ∃ q, b.queue? name = some q
          ∧ after.queue? name
            = some { q with
                ready := q.ready ++ [⟨q.published + 1, body, false⟩]
                published := q.published + 1 }
  /-- Every other queue is as it was. -/
  others
    : ∀ x, b.exchange? s.exchange = some x → ∀ name, ¬x.Receives s.key name →
        after.queue? name = b.queue? name
  /-- Nothing but queues changes. -/
  rest : after = { b with queues := after.queues }

/-- Pushing onto queues changes the queues alone. -/
theorem rest_pushAll (names : List String) (b : State) (body : List UInt8)
    : names.foldl (fun b name => b.modifyQueue name (·.push body)) b
      = { b with
          queues := (names.foldl (fun b name => b.modifyQueue name (·.push body)) b).queues } := by
  induction names generalizing b with
  | nil => rfl
  | cons head rest ih => exact ih _

/-- A publication on a declared channel reaches its receivers, and nothing else. -/
theorem publishes_route {b : State} {s : Settings} (declared : b.Declares s) (bound : b.Bound)
    (body : List UInt8)
    : ∃ after, b.route s.exchange s.key body = .ok after ∧ Publishes b s body after := by
  obtain ⟨x, found, kind, member⟩ := declared
  have pushed := State.queue?_pushAll (x.targets s.key) (State.nodup_targets x s.key) b body
  refine ⟨_, by simp only [State.route, found]; rfl, ?_⟩
  constructor
  case own => exact ⟨x, found, kind, Exchange.receives_of_mem member⟩
  case rest => exact rest_pushAll _ b body
  case received =>
    intro other same name receives
    obtain rfl : x = other := Option.some.inj (found.symm.trans same)
    obtain ⟨key, binding, -⟩ := receives.exists_binding
    obtain ⟨q, present⟩ := Option.isSome_iff_exists.mp (bound s.exchange x found _ binding)
    refine ⟨q, present, ?_⟩
    rw [pushed, if_pos (Exchange.mem_targets_iff.mpr receives), present]
    rfl
  case others =>
    intro other same name spared
    obtain rfl : x = other := Option.some.inj (found.symm.trans same)
    rw [pushed, if_neg (mt Exchange.mem_targets_iff.mp spared)]

/-- After any acts of any clients, what a connected producer publishes reaches every queue that is
bound for it, its own among them. -/
theorem publishes_run (acts : List MarketAct) (place : Nat) {p : Producer}
    (known : (run {} acts).producers[place]? = some p) (connected : p.connected)
    (body : List UInt8)
    : ∃ after, p.publish (run {} acts).broker body = .ok after
        ∧ (run {} acts).step (.client (.publish place body)) = (run {} acts).onBroker after
        ∧ Publishes (run {} acts).broker p.settings body after := by
  have declared := Declared.start.run acts
  have wired := declared.connected p (List.mem_of_getElem? known) connected
  obtain ⟨after, routed, publishes⟩ := publishes_route wired declared.bound body
  have published : p.publish (run {} acts).broker body = .ok after := by
    simp [Producer.publish, connected, routed]
  refine ⟨after, published, ?_, publishes⟩
  simp [Market.step, Market.serve, Market.asProducer, known, published, Market.orSame, Except.map]

/-- A topic channel whose routing key is full of wildcards. -/
def wildcards : Settings :=
  { kind := .topic, queue := "all", key := "#.*.#" }

/-- A producer connects after a consumer has declared its exchange. One of another kind is refused
in between, and a second consumer binds the queue of the first once more. -/
def conflict : List MarketAct :=
  [.client (.addConsumer { wildcards with queue := "some" }), .client (.connectConsumer 0),
    .client (.addProducer { wildcards with kind := .fanout }), .client (.connectProducer 0),
    .client (.addProducer wildcards), .client (.connectProducer 1),
    .client (.addConsumer { wildcards with queue := "some", key := "#" }),
    .client (.connectConsumer 1), .client (.closeProducer 0)]

/-- The producer of the declared kind publishes to every queue bound by its pattern, whatever kind
the refused one wanted. -/
theorem publishes_run_conflict
    : (run {} conflict).producers[1]? = some ⟨wildcards, true⟩
      ∧ (⟨wildcards, true⟩ : Producer).connected
      ∧ ∃ after, Producer.publish ⟨wildcards, true⟩ (run {} conflict).broker [1, 2] = .ok after
          ∧ (run {} conflict).step (.client (.publish 1 [1, 2])) = (run {} conflict).onBroker after
          ∧ Publishes (run {} conflict).broker wildcards [1, 2] after := by
  have known : (run {} conflict).producers[1]? = some ⟨wildcards, true⟩ := by decide +kernel
  exact ⟨known, rfl, publishes_run conflict 1 known rfl [1, 2]⟩

end Market

end Almanac.Broker
