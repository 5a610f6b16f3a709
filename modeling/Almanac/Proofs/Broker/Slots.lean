import Almanac.Proofs.Broker.Numbering

/-! The slots of sessions.
A slot is free, with a poll that waits for a message, or taken up by a delivery that is not settled.
It goes from one to the next with whatever is done to a broker, and none is lost or made.
-/

namespace Almanac.Broker

-------------------------------------------------------------------------------
-- One session
-------------------------------------------------------------------------------

namespace Session

variable {s : Session} {taken : Nat}

/-- The slots of a session add up, when so many deliveries take up one each. -/
def Balanced (s : Session) (taken : Nat) : Prop :=
  s.isBounded → s.free + s.polls + taken = s.slots

/-- A session starts with all of its slots free. -/
theorem balanced_start (number slots : Nat) : (start number slots).Balanced 0 :=
  fun _ => rfl

/-- A poll that begins to wait has a slot that was free. -/
theorem Balanced.poll {polled : Session} (h : s.Balanced taken) (asked : s.poll? = some polled)
    : polled.Balanced taken := by
  intro bounded
  have slots : polled.slots = s.slots := congrArg Prod.snd (shape_poll asked)
  have bounded : s.isBounded := by rwa [isBounded, slots] at bounded
  have balance := h bounded
  simp only [poll?, bounded, Bool.not_true, Bool.false_eq_true, if_false] at asked
  split at asked
  · cases asked
    simp only at slots ⊢
    omega
  · cases asked

/-- Releasing keeps whether a session is bounded. -/
theorem isBounded_release (s : Session) : s.release.isBounded = s.isBounded := by
  unfold release
  split <;> rfl

/-- Releasing keeps how many slots a session has. -/
theorem slots_release (s : Session) : s.release.slots = s.slots :=
  congrArg Prod.snd s.shape_release

/-- A released slot is free. -/
theorem free_release (s : Session) : s.release.free = s.free + if s.isBounded then 1 else 0 := by
  unfold release
  split <;> simp [*]

/-- Releasing frees a slot and no poll. -/
theorem polls_release (s : Session) : s.release.polls = s.polls := by
  unfold release
  split <;> rfl

/-- A release takes one delivery off and gives its slot back. -/
theorem Balanced.release (h : s.Balanced (taken + 1)) : s.release.Balanced taken := by
  intro bounded
  rw [isBounded_release] at bounded
  have balance := h bounded
  rw [free_release, polls_release, slots_release, if_pos bounded]
  omega

/-- A poll that has its message hands its slot on to the delivery. -/
theorem Balanced.deliver (h : s.Balanced taken) (waiting : 0 < s.polls)
    : s.deliver.Balanced (taken + 1) := by
  intro bounded
  have balance := h bounded
  simp only [Session.deliver]
  omega

/-- Giving up a poll frees the slot it waited with; a delivery released at once. -/
theorem Balanced.giveUp (h : s.Balanced taken) (waiting : 0 < s.polls)
    : s.giveUp.Balanced taken :=
  (h.deliver waiting).release

end Session

-------------------------------------------------------------------------------
-- Pending deliveries of a broker
-------------------------------------------------------------------------------

namespace State

variable {b after : State} {name : String} {q next : Queue}

/-- The deliveries that are not settled, on any queue. -/
def pending (b : State) : List Pending :=
  b.queues.flatMap fun entry => entry.2.pending

/-- How many deliveries that were taken in a session are not settled. -/
def taken (b : State) (session : Nat) : Nat :=
  b.pending.countP (·.session = session)

/-- Sessions hold what is pending, so equal entries are held alike. -/
theorem taken_of_pending (same : after.pending = b.pending) : after.taken = b.taken := by
  funext session
  rw [taken, same, taken]

/-- Changing a queue but for what is pending there leaves all pending entries as they are. -/
theorem pending_modifyQueue_of_same {f : Queue → Queue} (same : ∀ q, (f q).pending = q.pending)
    (b : State) (name : String)
    : (b.modifyQueue name f).pending = b.pending := by
  simp only [pending, modifyQueue, List.flatMap_map]
  congr 1
  funext entry
  by_cases here : entry.1 = name <;> simp [here, same]

/-- A queue is changed at its place, and nothing else is. -/
theorem queues_modifyQueue (distinct : (b.queues.map Prod.fst).Nodup)
    (declared : b.queue? name = some q)
    : ∃ before after, b.queues = before ++ (name, q) :: after
        ∧ ∀ next, (b.modifyQueue name fun _ => next).queues = before ++ (name, next) :: after := by
  obtain ⟨before, after, split, -⟩ := List.lookup_eq_some_iff.mp declared
  refine ⟨before, after, split, fun next => ?_⟩
  rw [split, List.map_append, List.map_cons, List.nodup_middle, List.nodup_cons] at distinct
  have others {part : List (String × Queue)} (inside : part ⊆ before ++ after)
      : (part.map fun entry => if entry.1 = name then (name, next) else entry) = part := by
    refine (List.map_congr_left fun entry member => ?_).trans (List.map_id part)
    refine if_neg fun same => distinct.1 ?_
    rw [← List.map_append, ← same]
    exact List.mem_map.mpr ⟨entry, inside member, rfl⟩
  simp [modifyQueue, split, others]

/-- The pending deliveries of one queue are set apart from those of the others, which a change of
the queue leaves as they are. -/
theorem pending_split (distinct : (b.queues.map Prod.fst).Nodup) (declared : b.queue? name = some q)
    : ∃ others, b.pending.Perm (q.pending ++ others)
        ∧ ∀ next, (b.modifyQueue name fun _ => next).pending.Perm (next.pending ++ others) := by
  obtain ⟨before, after, split, changed⟩ := queues_modifyQueue distinct declared
  refine ⟨(before ++ after).flatMap fun entry => entry.2.pending, ?_, fun next => ?_⟩
  · simpa [pending, split] using List.perm_append_comm_assoc _ _ _
  · simpa [pending, changed next] using List.perm_append_comm_assoc _ _ _

/-- A change of one queue changes how many deliveries of a session are pending by what it changes
there. -/
theorem taken_modifyQueue (distinct : (b.queues.map Prod.fst).Nodup)
    (declared : b.queue? name = some q) (next : Queue) (session : Nat)
    : (b.modifyQueue name fun _ => next).taken session + q.pending.countP (·.session = session)
      = b.taken session + next.pending.countP (·.session = session) := by
  obtain ⟨others, before, after⟩ := pending_split distinct declared
  simp only [taken, before.countP_eq, (after next).countP_eq, List.countP_append]
  omega

/-- What is pending after a queue was replaced was pending before or comes of the new queue. -/
theorem mem_pending_modifyQueue (distinct : (b.queues.map Prod.fst).Nodup)
    (declared : b.queue? name = some q) {next : Queue} {p : Pending}
    (member : p ∈ (b.modifyQueue name fun _ => next).pending)
    : p ∈ b.pending ∨ p ∈ next.pending := by
  obtain ⟨others, before, after⟩ := pending_split distinct declared
  rcases List.mem_append.mp ((after next).mem_iff.mp member) with here | elsewhere
  · exact .inr here
  · exact .inl (before.mem_iff.mpr (List.mem_append_right _ elsewhere))

/-- An entry of a declared queue is pending at the broker. -/
theorem mem_pending_of_queue (declared : b.queue? name = some q) {p : Pending}
    (member : p ∈ q.pending)
    : p ∈ b.pending := by
  obtain ⟨before, after, split, -⟩ := List.lookup_eq_some_iff.mp declared
  exact List.mem_flatMap.mpr ⟨(name, q), by simp [split], member⟩

/-- A declaration delivers nothing: a new queue is empty. -/
theorem pending_declare {s : Settings} (declared : b.declare s = .ok after)
    : after.pending = b.pending := by
  rcases queues_declare declared with same | ⟨-, added⟩
  · rw [pending, same, pending]
  · simp [pending, added]

/-- Pushing makes messages ready and none pending. -/
theorem pending_pushAll (names : List String) (b : State) (body : List UInt8)
    : (names.foldl (fun b name => b.modifyQueue name (·.push body)) b).pending = b.pending := by
  induction names generalizing b with
  | nil => rfl
  | cons name names ih =>
      refine (ih _).trans ?_
      apply pending_modifyQueue_of_same
      exact fun _ => rfl

/-- Pushing touches no session. -/
theorem sessions_pushAll (names : List String) (b : State) (body : List UInt8)
    : (names.foldl (fun b name => b.modifyQueue name (·.push body)) b).sessions = b.sessions := by
  induction names generalizing b with
  | nil => rfl
  | cons name names ih => exact ih _

/-- Publishing leaves what is pending as it is. -/
theorem pending_route {exchange key : String} {body : List UInt8}
    (routed : b.route exchange key body = .ok after)
    : after.pending = b.pending := by
  unfold route at routed
  split at routed
  · cases routed
  · obtain rfl := Except.ok.inj routed
    exact pending_pushAll _ b body

/-- Publishing leaves the sessions as they are. -/
theorem sessions_route {exchange key : String} {body : List UInt8}
    (routed : b.route exchange key body = .ok after)
    : after.sessions = b.sessions := by
  unfold route at routed
  split at routed
  · cases routed
  · obtain rfl := Except.ok.inj routed
    exact sessions_pushAll _ b body

-------------------------------------------------------------------------------
-- All sessions
-------------------------------------------------------------------------------

/-- The slots of every session add up, when so many deliveries take up one each. -/
def Slotted (b : State) (taken : Nat → Nat) : Prop :=
  ∀ s ∈ b.sessions, s.Balanced (taken s.number)

/-- Slots are counted over sessions alone. -/
theorem Slotted.of_sessions {taken : Nat → Nat} (h : b.Slotted taken)
    (same : after.sessions = b.sessions)
    : after.Slotted taken := by
  rwa [Slotted, same]

/-- A change of the sessions of one number keeps the slots adding up, when it does so there. -/
theorem Slotted.modifySession {taken counted : Nat → Nat} (h : b.Slotted taken) {number : Nat}
    {f : Session → Session}
    (here
      : ∀ s ∈ b.sessions, s.number = number → s.Balanced (taken number) →
          (f s).number = number ∧ (f s).Balanced (counted number))
    (elsewhere : ∀ other, other ≠ number → counted other = taken other)
    : (b.modifySession number f).Slotted counted := by
  intro s member
  obtain ⟨before, known, rfl⟩ := List.mem_map.mp member
  by_cases same : before.number = number
  · obtain ⟨kept, balanced⟩ := here before known same (same ▸ h before known)
    simpa [same, kept] using balanced
  · simpa [same, elsewhere before.number same] using h before known

/-- Releasing one session accounts for one entry less that it holds. -/
theorem Slotted.release {taken counted : Nat → Nat} (h : b.Slotted taken) {number : Nat}
    (counts : ∀ session, taken session = counted session + if number = session then 1 else 0)
    : (b.modifySession number Session.release).Slotted counted := by
  refine h.modifySession (fun s _ same balanced => ?_) fun other differs => ?_
  · rw [counts, if_pos rfl] at balanced
    exact ⟨(congrArg Prod.fst s.shape_release).trans same, balanced.release⟩
  · simpa [Ne.symm differs] using (counts other).symm

/-- Releasing the slot of each of some deliveries makes up for those that are not pending any more,
by induction on them. -/
theorem Slotted.releaseAll {counted : Nat → Nat} (held : List Pending)
    (h : b.Slotted fun session => counted session + held.countP (·.session = session))
    : (held.foldl (fun b p => b.modifySession p.session Session.release) b).Slotted counted := by
  induction held generalizing b with
  | nil => simpa using h
  | cons p held ih =>
      refine ih (h.release fun session => ?_)
      simp only [List.countP_cons, decide_eq_true_eq]
      omega

/-- Releasing sessions changes no queue. -/
theorem pending_releaseAll (held : List Pending) (b : State)
    : (held.foldl (fun b p => b.modifySession p.session Session.release) b).pending
      = b.pending := by
  induction held generalizing b with
  | nil => rfl
  | cons p held ih => exact ih _

/-- The accounts of the slots: all of them add up, and pending deliveries were taken in sessions
that there were. -/
structure Balanced (b : State) : Prop where
  given : ∀ p ∈ b.pending, p.session ≤ b.sessions.length
  slotted : b.Slotted b.taken

/-- The empty broker has nothing to balance. -/
theorem Balanced.start : Balanced {} where
  given _ member := by cases member
  slotted _ member := by cases member

/-- What leaves sessions and pending deliveries alone leaves the accounts alone. -/
theorem Balanced.of_same (h : b.Balanced) (sessions : after.sessions = b.sessions)
    (pending : after.pending = b.pending)
    : after.Balanced where
  given p member := by
    rw [sessions]
    exact h.given p (pending ▸ member)
  slotted := taken_of_pending pending ▸ h.slotted.of_sessions sessions

/-- A new session has all its slots free, since no delivery was taken in it. -/
theorem Balanced.openSession (h : b.Balanced) (slots : Nat) : (b.openSession slots).Balanced where
  given p member := (h.given p member).trans (by simp [State.openSession])
  slotted := by
    intro s member
    rcases List.mem_append.mp member with earlier | new
    · exact h.slotted s earlier
    · rw [List.mem_singleton.mp new]
      have none : b.taken (b.sessions.length + 1) = 0 := by
        refine List.countP_eq_zero.mpr fun p member => ?_
        have below := h.given p member
        simp only [decide_eq_true_eq]
        omega
      exact none ▸ Session.balanced_start _ _

/-- Changing one session keeps the balance if the session stays balanced, whatever it holds. -/
theorem Balanced.modifySession (h : b.Balanced) {number : Nat} {f : Session → Session}
    (each
      : ∀ s ∈ b.sessions, s.number = number → ∀ taken, s.Balanced taken →
          (f s).number = number ∧ (f s).Balanced taken)
    : (b.modifySession number f).Balanced where
  given p member := (h.given p member).trans (by simp [State.modifySession])
  slotted :=
    h.slotted.modifySession (fun s member same balanced => each s member same _ balanced)
      fun _ _ => rfl

/-- A delivery that is taken keeps the slot of the poll that waited for it. -/
theorem Balanced.handOver (h : b.Balanced) (distinct : (b.queues.map Prod.fst).Nodup)
    (declared : b.queue? name = some q) {consumer session : Nat} {p : Pending}
    (taken : q.take? consumer session = some (p, next)) (given : session ≤ b.sessions.length)
    (waiting : ∀ s ∈ b.sessions, s.number = session → 0 < s.polls)
    : (b.handOver name next session).Balanced := by
  obtain ⟨rfl, pending⟩ : p.session = session ∧ next.pending = q.pending ++ [p] := by
    unfold Queue.take? at taken
    split at taken
    · cases taken
    · cases taken
      exact ⟨rfl, rfl⟩
  refine ⟨fun other member => ?_, ?_⟩
  · rw [(b.alike_handOver name next p.session).length_sessions]
    rcases mem_pending_modifyQueue distinct declared member with earlier | here
    · exact h.given other earlier
    · rw [pending] at here
      rcases List.mem_append.mp here with earlier | new
      · exact h.given other (mem_pending_of_queue declared earlier)
      · exact List.mem_singleton.mp new ▸ given
  · have counts (session : Nat)
        : (b.modifyQueue name fun _ => next).taken session
          = b.taken session + if p.session = session then 1 else 0 := by
      have change := taken_modifyQueue distinct declared next session
      simp only [pending, List.countP_append, List.countP_singleton, decide_eq_true_eq] at change
      omega
    have before : (b.modifyQueue name fun _ => next).Slotted b.taken := h.slotted
    refine before.modifySession (fun s member same balanced => ⟨same, ?_⟩) fun other differs => ?_
    · refine (counts p.session).symm ▸ ?_
      rw [if_pos rfl]
      exact balanced.deliver (waiting s member same)
    · exact (counts other).trans (by simp [Ne.symm differs])

/-- A delivery that is settled is pending no more, and no other is. -/
theorem taken_settleAt (distinct : (b.queues.map Prod.fst).Nodup)
    (declared : b.queue? name = some q) {p : Pending}
    (settled : q.pending.Perm (p :: next.pending)) (session : Nat)
    : b.taken session
      = (b.settleAt name next p.session).taken session + if p.session = session then 1 else 0 := by
  have change
      : (b.settleAt name next p.session).taken session + q.pending.countP (·.session = session)
        = b.taken session + next.pending.countP (·.session = session) :=
    taken_modifyQueue distinct declared next session
  simp only [settled.countP_eq, List.countP_cons, decide_eq_true_eq] at change
  omega

/-- A delivery that is settled leaves its slot free. -/
theorem Balanced.settleAt (h : b.Balanced) (distinct : (b.queues.map Prod.fst).Nodup)
    (declared : b.queue? name = some q) {p : Pending} (settled : q.pending.Perm (p :: next.pending))
    : (b.settleAt name next p.session).Balanced := by
  refine ⟨fun other member => ?_, ?_⟩
  · rw [(b.alike_settleAt name next p.session).length_sessions]
    refine h.given other ?_
    rcases mem_pending_modifyQueue distinct declared member with earlier | here
    · exact earlier
    · exact mem_pending_of_queue declared (settled.mem_iff.mpr (List.mem_cons_of_mem _ here))
  · have before : (b.modifyQueue name fun _ => next).Slotted b.taken := h.slotted
    exact before.release (taken_settleAt distinct declared settled)

/-- What a consumer holds of a queue leaves its slots free when it returns there. -/
theorem Balanced.returnAll (h : b.Balanced) (distinct : (b.queues.map Prod.fst).Nodup)
    (name : String) (consumer : Nat)
    : (b.returnAll name consumer).Balanced := by
  have size := (b.alike_returnAll name consumer).length_sessions
  unfold State.returnAll at size ⊢
  cases declared : b.queue? name with
  | none => exact h
  | some q =>
      simp only [declared] at size ⊢
      have pending := pending_releaseAll (q.heldBy consumer)
        (b.modifyQueue name fun _ => q.returnAll consumer)
      refine ⟨fun p member => ?_, ?_⟩
      · rw [size]
        refine h.given p ?_
        rw [pending] at member
        rcases mem_pending_modifyQueue distinct declared member with earlier | here
        · exact earlier
        · exact mem_pending_of_queue declared (List.mem_of_mem_filter here)
      · rw [taken_of_pending pending]
        apply Slotted.releaseAll
        intro s member
        have change := taken_modifyQueue distinct declared (q.returnAll consumer) s.number
        rw [(q.perm_heldBy consumer).countP_eq, List.countP_append] at change
        have counts : b.taken s.number
            = (b.modifyQueue name fun _ => q.returnAll consumer).taken s.number
              + (q.heldBy consumer).countP (·.session = s.number) := by
          omega
        have balanced := h.slotted s member
        rwa [counts] at balanced

end State

-------------------------------------------------------------------------------
-- Runs
-------------------------------------------------------------------------------

namespace Market

variable {m after : Market} {act : MarketAct}

/-- The sessions of a number in which a poll waits. -/
theorem Numbered.waiting (h : m.Numbered) {place session : Nat} (polled : m.isPolled place session)
    : ∃ s ∈ m.broker.sessions, s.number = session
        ∧ ∀ other ∈ m.broker.sessions, other.number = session → 0 < other.polls := by
  obtain ⟨-, waiting⟩ := Bool.and_eq_true_iff.mp polled
  obtain ⟨s, found, waiting⟩ := (Option.any_eq_true _ _).mp waiting
  have member := List.mem_of_find?_eq_some found
  have same : s.number = session := by simpa using List.find?_some found
  refine ⟨s, member, same, fun other known again => ?_⟩
  rw [h.broker.session_unique known member (again.trans same.symm)]
  simpa using waiting

/-- A settlement removes one pending delivery from its queue, since tags are told apart. -/
theorem perm_settled {name : String} {q : Queue} {tag : Nat} {p : Pending}
    (accounted : ∃ log, (m.broker.queueOf name).Accounted log)
    (declared : m.broker.queue? name = some q) (held : q.pending? tag = some p) (requeue : Bool)
    : q.pending.Perm (p :: (q.settled tag requeue).pending) := by
  obtain ⟨log, accounts⟩ := accounted
  have same : m.broker.queueOf name = q := by simp [State.queueOf, declared]
  rw [Queue.settled_of_pending? requeue held]
  cases requeue <;> exact (same ▸ accounts).perm_remove held

/-- The accounts of the slots add up after every turn, by cases on it. -/
theorem balanced_turn (numbered : m.Numbered)
    (accounted : ∀ name, ∃ log, (m.broker.queueOf name).Accounted log)
    (h : m.broker.Balanced) (turn : m.Turn act after)
    : after.broker.Balanced := by
  have distinct := numbered.broker.names
  cases turn with
  | idle | addProducer | closeProducer | openStream | leave => exact h
  | addConsumer => exact h.of_same rfl rfl
  | connectProducer known fresh declared =>
      exact h.of_same (State.sessions_declare declared) (State.pending_declare declared)
  | publish known connected routed =>
      exact h.of_same (State.sessions_route routed) (State.pending_route routed)
  | connectConsumer known ended declared =>
      refine State.Balanced.openSession ?_ _
      exact h.of_same (State.sessions_declare declared) (State.pending_declare declared)
  | poll opened found asked =>
      refine h.modifySession fun s member same taken balanced => ?_
      rw [← same, numbered.broker.session?_eq_some_iff.mpr member] at found
      obtain rfl := Option.some.inj found
      exact ⟨(congrArg Prod.fst (Session.shape_poll asked)).trans same, balanced.poll asked⟩
  | giveUp polled =>
      obtain ⟨-, -, -, waiting⟩ := numbered.waiting polled
      refine h.modifySession fun s member same taken balanced => ?_
      exact ⟨(congrArg Prod.fst s.shape_giveUp).trans same, balanced.giveUp (waiting s member same)⟩
  | purge known connected =>
      refine h.of_same rfl ?_
      apply State.pending_modifyQueue_of_same
      exact fun _ => rfl
  | handBack begun => exact h.returnAll distinct _ _
  | receive polled known declared taken =>
      obtain ⟨s, member, rfl, waiting⟩ := numbered.waiting polled
      exact h.handOver distinct declared taken (numbered.broker.number_le member) waiting
  | ack declared held | nack declared held =>
      exact h.settleAt distinct declared (perm_settled (accounted _) declared held _)

/-- In every reachable market, each queue has a log that accounts for it. -/
theorem accounts_run (acts : List MarketAct) (name : String)
    : ∃ log, ((run {} acts).broker.queueOf name).Accounted log := by
  have start : (({} : Market).broker.queueOf name).Accounted [] := .start
  exact ⟨_, accounted_run start acts⟩

/-- The accounts of the slots add up after any acts, by induction on them from the last one. -/
theorem balanced_run (acts : List MarketAct) : (run {} acts).broker.Balanced := by
  induction acts using List.reverseRecOn with
  | nil => exact .start
  | append_singleton acts act ih =>
      rw [run_concat]
      exact balanced_turn (numbered_run acts) (accounts_run acts) ih (turn_step _ act)

end Market

end Almanac.Broker
