import Almanac.Proofs.Broker.Turn

/-! Consumers and sessions are numbered in the order they come, and queues go by different names.
A session has the slots that its consumer asked for, and a place in line never changes hands.
-/

namespace Almanac.Broker

-------------------------------------------------------------------------------
-- What operations leave as it is
-------------------------------------------------------------------------------

/-- What a session is as long as it lasts: its number, and how many slots it has. -/
def Session.shape (s : Session) : Nat × Nat :=
  (s.number, s.slots)

@[simp]
theorem Session.shape_release (s : Session) : s.release.shape = s.shape := by
  unfold release
  split <;> rfl

@[simp]
theorem Session.shape_deliver (s : Session) : s.deliver.shape = s.shape := rfl

@[simp]
theorem Session.shape_giveUp (s : Session) : s.giveUp.shape = s.shape := by
  simp [giveUp]

/-- Polling keeps what identifies a session. -/
theorem Session.shape_poll {s polled : Session} (asked : s.poll? = some polled)
    : polled.shape = s.shape := by
  unfold poll? at asked
  split at asked
  · cases asked
    rfl
  · split at asked
    · cases asked
      rfl
    · cases asked

namespace State

variable {b middle after : State}

/-- A broker has the same queues and sessions as before, and as many consumers, whatever happened
on them. -/
structure Alike (b after : State) : Prop where
  lastConsumer : after.lastConsumer = b.lastConsumer
  sessions : after.sessions.map Session.shape = b.sessions.map Session.shape
  names : after.queues.map Prod.fst = b.queues.map Prod.fst

theorem Alike.refl (b : State) : b.Alike b :=
  ⟨rfl, rfl, rfl⟩

/-- Likeness of brokers composes. -/
theorem Alike.trans (first : b.Alike middle) (later : middle.Alike after) : b.Alike after :=
  ⟨later.lastConsumer.trans first.lastConsumer, later.sessions.trans first.sessions,
    later.names.trans first.names⟩

/-- Alike brokers have opened as many sessions. -/
theorem Alike.length_sessions (alike : b.Alike after)
    : after.sessions.length = b.sessions.length := by
  simpa using congrArg List.length alike.sessions

/-- Changing the content of a queue keeps its name, and nothing else is looked at. -/
theorem alike_modifyQueue (b : State) (name : String) (f : Queue → Queue)
    : b.Alike (b.modifyQueue name f) where
  lastConsumer := rfl
  sessions := rfl
  names := by
    simp only [modifyQueue, List.map_map]
    refine List.map_congr_left fun entry _ => ?_
    by_cases same : entry.1 = name <;> simp [same]

/-- Changing a session keeps the broker alike if the session keeps its shape. -/
theorem alike_modifySession {number : Nat} {f : Session → Session}
    (kept : ∀ s ∈ b.sessions, s.number = number → (f s).shape = s.shape)
    : b.Alike (b.modifySession number f) where
  lastConsumer := rfl
  names := rfl
  sessions := by
    simp only [modifySession, List.map_map]
    refine List.map_congr_left fun s member => ?_
    by_cases same : s.number = number
    · simp [same, kept s member same]
    · simp [same]

/-- A fold keeps the broker alike if each of its steps does. -/
theorem alike_foldl {α : Type} {f : State → α → State} (each : ∀ (b : State) a, b.Alike (f b a))
    (as : List α) (b : State)
    : b.Alike (as.foldl f b) := by
  induction as generalizing b with
  | nil => exact .refl b
  | cons a as ih => exact (each b a).trans (ih _)

/-- Publishing only pushes onto queues. -/
theorem alike_route {exchange key : String} {body : List UInt8}
    (routed : b.route exchange key body = .ok after)
    : b.Alike after := by
  unfold route at routed
  split at routed
  · cases routed
  · obtain rfl := Except.ok.inj routed
    exact alike_foldl (fun b name => b.alike_modifyQueue name _) _ b

/-- A delivery keeps names and shapes, whatever it moves. -/
theorem alike_handOver (b : State) (name : String) (q : Queue) (session : Nat)
    : b.Alike (b.handOver name q session) :=
  (b.alike_modifyQueue name _).trans (alike_modifySession fun s _ _ => s.shape_deliver)

/-- A settlement keeps names and shapes: it empties one entry and frees one slot. -/
theorem alike_settleAt (b : State) (name : String) (q : Queue) (session : Nat)
    : b.Alike (b.settleAt name q session) :=
  (b.alike_modifyQueue name _).trans (alike_modifySession fun s _ _ => s.shape_release)

/-- Returning what a consumer holds is a change of one queue and a release per message. -/
theorem alike_returnAll (b : State) (queue : String) (consumer : Nat)
    : b.Alike (b.returnAll queue consumer) := by
  unfold returnAll
  split
  · exact .refl b
  · exact (b.alike_modifyQueue queue _).trans
      (alike_foldl (fun b _ => alike_modifySession fun s _ _ => s.shape_release) _ _)

/-- A declaration changes exchanges and queues alone. -/
theorem rest_declare {s : Settings} (declared : b.declare s = .ok after)
    : after = { b with exchanges := after.exchanges, queues := after.queues } := by
  obtain ⟨middle, exchange, rfl⟩ := of_declare declared
  have first : middle = { b with exchanges := middle.exchanges } := by
    unfold declareExchange at exchange
    split at exchange
    · cases exchange
      rfl
    · split at exchange <;> cases exchange
      rfl
  rw [first]
  unfold declareQueue
  split <;> rfl

/-- Declaring opens no session. -/
theorem sessions_declare {s : Settings} (declared : b.declare s = .ok after)
    : after.sessions = b.sessions := by
  rw [rest_declare declared]

/-- Declaring numbers no consumer. -/
theorem lastConsumer_declare {s : Settings} (declared : b.declare s = .ok after)
    : after.lastConsumer = b.lastConsumer := by
  rw [rest_declare declared]

/-- A declaration adds its queue, with nothing on it, unless there is one of that name. -/
theorem queues_declare {s : Settings} (declared : b.declare s = .ok after)
    : after.queues = b.queues
      ∨ b.queue? s.queue = none ∧ after.queues = b.queues ++ [(s.queue, ({} : Queue))] := by
  obtain ⟨middle, exchange, rfl⟩ := of_declare declared
  rw [queue?, ← queues_declareExchange exchange]
  unfold declareQueue
  cases absent : middle.queue? s.queue with
  | some q => exact .inl rfl
  | none => exact .inr ⟨absent, rfl⟩

/-- A queue that is not found is not listed. -/
theorem not_mem_names_of_queue?_eq_none {name : String} (absent : b.queue? name = none)
    : name ∉ b.queues.map Prod.fst := by
  intro listed
  obtain ⟨entry, member, rfl⟩ := List.mem_map.mp listed
  have differs := List.lookup_eq_none_iff.mp absent entry member
  simp at differs

/-- The queues and the sessions of a broker go by different names and numbers. -/
structure Numbered (b : State) : Prop where
  names : (b.queues.map Prod.fst).Nodup
  sessions : b.sessions.map Session.number = List.range' 1 b.sessions.length

/-- The numbering reads names and shapes alone, so it goes over to alike brokers. -/
theorem Numbered.alike (h : b.Numbered) (alike : b.Alike after) : after.Numbered where
  names := alike.names ▸ h.names
  sessions := by
    have numbers := congrArg (List.map Prod.fst) alike.sessions
    simp only [List.map_map] at numbers
    rw [alike.length_sessions]
    exact numbers.trans h.sessions

/-- Declaring keeps names unique, since a queue is added only where none of its name is found. -/
theorem Numbered.declare (h : b.Numbered) {s : Settings} (declared : b.declare s = .ok after)
    : after.Numbered where
  names := by
    rcases queues_declare declared with same | ⟨absent, added⟩
    · exact same ▸ h.names
    · rw [added, List.map_append]
      refine List.nodup_append.mpr ⟨h.names, by simp, ?_⟩
      rintro name member other new rfl
      simp only [List.map_cons, List.map_nil, List.mem_singleton] at new
      exact not_mem_names_of_queue?_eq_none absent (new ▸ member)
  sessions := by
    rw [sessions_declare declared]
    exact h.sessions

/-- A new session takes the next number. -/
theorem Numbered.openSession (h : b.Numbered) (slots : Nat) : (b.openSession slots).Numbered where
  names := h.names
  sessions := by
    simp [State.openSession, Session.start, h.sessions, List.range'_concat, Nat.add_comm]

/-- No two sessions share a number, as the numbers are a range. -/
theorem Numbered.nodup_sessions (h : b.Numbered) : (b.sessions.map Session.number).Nodup :=
  h.sessions ▸ List.nodup_range'

/-- Session numbers are bounded by how many sessions were opened. -/
theorem Numbered.number_le (h : b.Numbered) {s : Session} (member : s ∈ b.sessions)
    : s.number ≤ b.sessions.length := by
  have listed : s.number ∈ b.sessions.map Session.number := List.mem_map_of_mem member
  rw [h.sessions, List.mem_range'_1] at listed
  omega

/-- There is one session of a number. -/
theorem Numbered.session_unique (h : b.Numbered) {s other : Session} (member : s ∈ b.sessions)
    (again : other ∈ b.sessions) (same : s.number = other.number)
    : s = other :=
  List.inj_on_of_nodup_map h.nodup_sessions member again same

/-- A session is found by its number exactly if it was opened, since the numbers are unique. -/
theorem Numbered.session?_eq_some_iff (h : b.Numbered) {s : Session}
    : b.session? s.number = some s ↔ s ∈ b.sessions := by
  constructor
  · exact List.mem_of_find?_eq_some
  · intro member
    cases found : b.session? s.number with
    | none =>
        have absent := List.find?_eq_none.mp found s member
        simp at absent
    | some other =>
        have same : other.number = s.number := by simpa using List.find?_some found
        rw [h.session_unique (List.mem_of_find?_eq_some found) member same]

end State

-------------------------------------------------------------------------------
-- Markets
-------------------------------------------------------------------------------

namespace Market

variable {m after : Market} {act : MarketAct}

/-- Consumers, sessions and queues are told apart, and a connected consumer has a session of as many
slots as it asked for. -/
structure Numbered (m : Market) : Prop where
  broker : m.broker.Numbered
  consumers : m.consumers.map Consumer.number = List.range' 1 m.broker.lastConsumer
  connected
    : ∀ c ∈ m.consumers, ∀ session, c.session = some session →
        (session, c.settings.prefetch.toNat) ∈ m.broker.sessions.map Session.shape

theorem Numbered.start : Numbered {} where
  broker := ⟨.nil, rfl⟩
  consumers := rfl
  connected _ member := by cases member

/-- A broker that is alike may take the place of the numbered one. -/
theorem Numbered.onBroker (h : m.Numbered) {broker : State} (alike : m.broker.Alike broker)
    : (m.onBroker broker).Numbered where
  broker := h.broker.alike alike
  consumers := alike.lastConsumer ▸ h.consumers
  connected c member session connected := by
    change _ ∈ broker.sessions.map Session.shape
    rw [alike.sessions]
    exact h.connected c member session connected

/-- Putting a consumer of the same number back at its place keeps the list of numbers. -/
theorem map_number_set {consumers : List Consumer} {place : Nat} {c next : Consumer}
    (known : consumers[place]? = some c) (same : next.number = c.number)
    : (consumers.set place next).map Consumer.number = consumers.map Consumer.number := by
  rw [List.map_set, same]
  exact set_of_getElem? (by simp [known])

/-- Turns keep the numbers, by cases on them. -/
theorem Numbered.turn (h : m.Numbered) (turn : m.Turn act after) : after.Numbered := by
  cases turn with
  | idle | addProducer | closeProducer | openStream => exact ⟨h.broker, h.consumers, h.connected⟩
  | addConsumer =>
      refine ⟨⟨h.broker.names, h.broker.sessions⟩, ?_, ?_⟩
      · simp [h.consumers, List.range'_concat, Nat.add_comm]
      · intro c member session connected
        rcases List.mem_append.mp member with earlier | new
        · exact h.connected c earlier session connected
        · rw [List.mem_singleton.mp new] at connected
          cases connected
  | connectProducer known fresh declared =>
      refine ⟨h.broker.declare declared, ?_, ?_⟩
      · exact State.lastConsumer_declare declared ▸ h.consumers
      · exact State.sessions_declare declared ▸ h.connected
  | publish known connected routed => exact h.onBroker (State.alike_route routed)
  | connectConsumer known ended declared =>
      refine ⟨(h.broker.declare declared).openSession _, ?_, ?_⟩
      · refine (map_number_set known (by rfl)).trans ?_
        exact State.lastConsumer_declare declared ▸ h.consumers
      · intro c member session connected
        rw [State.openSession, List.map_append, List.mem_append]
        rcases List.mem_or_eq_of_mem_set member with earlier | rfl
        · refine .inl ?_
          rw [State.sessions_declare declared]
          exact h.connected c earlier session connected
        · cases connected
          exact .inr (List.mem_singleton.mpr rfl)
  | poll opened found asked =>
      refine h.onBroker (State.alike_modifySession fun s member same => ?_)
      rw [Session.shape_poll asked]
      rw [← same, h.broker.session?_eq_some_iff.mpr member] at found
      exact congrArg _ (Option.some.inj found).symm
  | giveUp waiting =>
      exact h.onBroker (State.alike_modifySession fun s _ _ => s.shape_giveUp)
  | purge known connected => exact h.onBroker (State.alike_modifyQueue _ _ _)
  | leave known connected =>
      refine ⟨h.broker, ?_, ?_⟩
      · exact (map_number_set known (by rfl)).trans h.consumers
      · intro c member session connected
        rcases List.mem_or_eq_of_mem_set member with earlier | rfl
        · exact h.connected c earlier session connected
        · cases connected
  | handBack begun =>
      obtain ⟨broker, consumers, connected⟩ := h.onBroker (State.alike_returnAll m.broker _ _)
      exact ⟨broker, consumers, connected⟩
  | receive waiting known declared taken => exact h.onBroker (State.alike_handOver _ _ _ _)
  | ack declared held | nack declared held => exact h.onBroker (State.alike_settleAt _ _ _ _)

/-- Every reachable market is numbered, by induction on its turns. -/
theorem numbered_run (acts : List MarketAct) : (run {} acts).Numbered :=
  of_turns .turn .start acts

/-- Consumers are told apart by their numbers. -/
theorem Numbered.place_unique (h : m.Numbered) {place other : Nat} {c d : Consumer}
    (known : m.consumers[place]? = some c) (found : m.consumers[other]? = some d)
    (same : c.number = d.number)
    : place = other := by
  have distinct : (m.consumers.map Consumer.number).Nodup := h.consumers ▸ List.nodup_range'
  have inside : place < (m.consumers.map Consumer.number).length := by
    simpa using (List.getElem?_eq_some_iff.mp known).1
  exact (List.getElem?_inj inside distinct).mp (by simp [known, found, same])

end Market

end Almanac.Broker
