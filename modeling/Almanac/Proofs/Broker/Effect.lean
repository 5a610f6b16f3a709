import Almanac.Broker.Outlet
import Almanac.Proofs.Broker.Ledger

/-! What each operation of a broker does to one queue.
Every operation comes down to moves at the queue, given here by the state before it.
-/

namespace Almanac.Broker

namespace State

/-- The queue of a name; one that was not declared has nothing on it. -/
def queueOf (b : State) (name : String) : Queue :=
  (b.queue? name).getD {}

def hasQueue (b : State) (name : String) : Bool :=
  (b.queue? name).isSome

variable {b after : State}

-------------------------------------------------------------------------------
-- Changes of one queue and of one session
-------------------------------------------------------------------------------

/-- A change of one queue changes no other, by induction on the list of queues. -/
theorem queue?_modifyQueue (b : State) (name other : String) (f : Queue → Queue)
    : (b.modifyQueue name f).queue? other
      = if other = name then (b.queue? other).map f else b.queue? other := by
  simp only [queue?, modifyQueue]
  induction b.queues with
  | nil => simp
  | cons entry rest ih =>
      obtain ⟨key, q⟩ := entry
      by_cases hit : other = key
      · subst hit
        by_cases same : other = name <;> simp [same]
      · have miss : (other == key) = false := by simpa using hit
        by_cases same : key = name
        · subst same
          simpa [List.lookup_cons, miss] using ih
        · simpa [List.lookup_cons, miss, same] using ih

/-- Changing one queue leaves the others. -/
theorem queueOf_modifyQueue_of_ne (b : State) {name other : String} (f : Queue → Queue)
    (differ : other ≠ name)
    : (b.modifyQueue name f).queueOf other = b.queueOf other := by
  simp [queueOf, queue?_modifyQueue, differ]

/-- Changing a queue is seen there; an unknown one counts as empty, which the change has to
keep. -/
theorem queueOf_modifyQueue_self (b : State) (name : String) (f : Queue → Queue)
    (kept : f {} = {})
    : (b.modifyQueue name f).queueOf name = f (b.queueOf name) := by
  cases found : b.queue? name <;> simp [queueOf, queue?_modifyQueue, found, kept]

@[simp]
theorem queueOf_modifySession (b : State) (number : Nat) (f : Session → Session) (name : String)
    : (b.modifySession number f).queueOf name = b.queueOf name := rfl

/-- Changing a queue declares none. -/
theorem hasQueue_modifyQueue (b : State) (name other : String) (f : Queue → Queue)
    : (b.modifyQueue name f).hasQueue other = b.hasQueue other := by
  by_cases same : other = name <;> simp [hasQueue, queue?_modifyQueue, same]

-------------------------------------------------------------------------------
-- Declaring
-------------------------------------------------------------------------------

/-- Declaring an exchange leaves the queues as they are. -/
theorem queues_declareExchange {s : Settings} (declared : b.declareExchange s = .ok after)
    : after.queues = b.queues := by
  unfold declareExchange at declared
  split at declared
  · cases declared
    rfl
  · split at declared
    · cases declared
      rfl
    · cases declared

/-- A declared queue starts with nothing on it; the others stay as they are. -/
theorem queueOf_declareQueue (b : State) (declared name : String)
    : (b.declareQueue declared).queueOf name = b.queueOf name := by
  unfold declareQueue
  cases known : b.queue? declared with
  | some q => rfl
  | none =>
      simp only [queueOf, queue?, List.lookup_append]
      cases found : b.queues.lookup name with
      | some q => simp
      | none => cases same : name == declared <;> simp [List.lookup_cons, same]

/-- Declaring a channel declares its exchange and then its queue. -/
theorem of_declare {s : Settings} (declared : b.declare s = .ok after)
    : ∃ middle, b.declareExchange s = .ok middle ∧ middle.declareQueue s.queue = after := by
  unfold declare at declared
  cases valid : s.validate with
  | error e => simp [valid, Bind.bind, Except.bind] at declared
  | ok _ =>
      cases exchange : b.declareExchange s with
      | error e => simp [valid, exchange, Bind.bind, Except.bind] at declared
      | ok middle =>
          exact ⟨middle, rfl, by simpa [valid, exchange, Bind.bind, Except.bind] using declared⟩

/-- Declaring a channel adds nothing to any queue and takes nothing from it. -/
theorem queueOf_declare {s : Settings} (declared : b.declare s = .ok after) (name : String)
    : after.queueOf name = b.queueOf name := by
  obtain ⟨middle, exchange, rfl⟩ := of_declare declared
  rw [queueOf_declareQueue]
  simp only [queueOf, queue?, queues_declareExchange exchange]

-------------------------------------------------------------------------------
-- Routing
-------------------------------------------------------------------------------

/-- Keeping the first of equal elements leaves no two that are equal, by induction on the length. -/
theorem nodup_eraseDups (names : List String) : names.eraseDups.Nodup := by
  induction size : names.length using Nat.strongRecOn generalizing names with
  | ind size ih =>
      cases names with
      | nil => simp
      | cons head rest =>
          subst size
          have shorter : (rest.filter fun other => !other == head).length < rest.length + 1 :=
            Nat.lt_succ_of_le (List.length_filter_le _ _)
          rw [List.eraseDups_cons, List.nodup_cons]
          refine ⟨?_, ih _ shorter _ rfl⟩
          simp [List.mem_eraseDups]

/-- A publication reaches no queue twice, since repeated names are dropped. -/
theorem nodup_targets (x : Exchange) (key : String) : (x.targets key).Nodup :=
  nodup_eraseDups _

/-- Whether a message under a routing key reaches a queue of the broker. -/
def reaches (b : State) (exchange key name : String) : Bool :=
  b.hasQueue name && (b.exchange? exchange).any fun x => decide (name ∈ x.targets key)

/-- The moves of one publication at a queue. -/
def publication (b : State) (exchange key : String) (body : List UInt8) (name : String)
    : List Move :=
  if b.reaches exchange key name then [.push body] else []

/-- One copy goes to each of the named queues that exist, by induction on the names. -/
theorem queue?_pushAll (names : List String) (distinct : names.Nodup) (b : State)
    (body : List UInt8) (name : String)
    : (names.foldl (fun b name => b.modifyQueue name (·.push body)) b).queue? name
      = if name ∈ names then (b.queue? name).map (·.push body) else b.queue? name := by
  induction names generalizing b with
  | nil => rfl
  | cons head rest ih =>
      obtain ⟨fresh, distinct⟩ := List.nodup_cons.mp distinct
      rw [List.foldl_cons, ih distinct, queue?_modifyQueue]
      by_cases same : name = head
      · subst same
        simp [fresh]
      · simp [same]

/-- Pushing onto distinct queues reaches the known ones among them once each. -/
theorem queueOf_pushAll (names : List String) (distinct : names.Nodup) (b : State)
    (body : List UInt8) (name : String)
    : (names.foldl (fun b name => b.modifyQueue name (·.push body)) b).queueOf name
      = if b.hasQueue name ∧ name ∈ names then (b.queueOf name).push body
        else b.queueOf name := by
  rw [queueOf, queue?_pushAll names distinct]
  by_cases named : name ∈ names <;> cases found : b.queue? name <;>
    simp [named, hasQueue, queueOf, found]

/-- A publication that succeeds does at each queue what its moves say. -/
theorem queueOf_route {exchange key : String} {body : List UInt8}
    (routed : b.route exchange key body = .ok after) (name : String)
    : after.queueOf name
      = (b.queueOf name).afterAll (b.publication exchange key body name) := by
  unfold route at routed
  cases found : b.exchange? exchange with
  | none => simp [found] at routed
  | some x =>
      simp only [found, Except.ok.injEq] at routed
      rw [← routed, queueOf_pushAll _ (nodup_targets x key)]
      by_cases hit : b.hasQueue name = true ∧ name ∈ x.targets key
      · simp [publication, reaches, found, hit, Queue.after]
      · have missed : b.reaches exchange key name = false := by
          simpa [reaches, found] using hit
        simp [publication, missed, hit]

/-- What is not routed moves nothing. -/
theorem publication_of_route_error {exchange key : String} {body : List UInt8} {e : QueueError}
    (refused : b.route exchange key body = .error e) (name : String)
    : b.publication exchange key body name = [] := by
  unfold route at refused
  cases found : b.exchange? exchange with
  | none => simp [publication, reaches, found]
  | some x => simp [found] at refused

/-- A publication moves by pushing its body, and in no other way. -/
theorem push_of_publication {exchange key : String} {body : List UInt8} {name : String}
    {move : Move} (member : move ∈ b.publication exchange key body name)
    : move = .push body := by
  unfold publication at member
  split at member
  · exact List.mem_singleton.mp member
  · cases member

-------------------------------------------------------------------------------
-- Settling and returning
-------------------------------------------------------------------------------

/-- A settlement of a tag that is not pending fails and names the tag. -/
theorem settle_of_pending?_eq_none {queue : String} {tag : Nat} (requeue : Bool)
    (absent : (b.queueOf queue).pending? tag = none)
    : b.settle queue tag requeue = .error (.ack s!"unknown delivery tag {tag}") := by
  cases known : b.queue? queue with
  | none => simp [settle, known]
  | some q =>
      have absent : q.pending? tag = none := by simpa [queueOf, known] using absent
      simp [settle, known, Queue.settle, absent, Except.map]

/-- A settlement fails for no other reason. -/
theorem pending?_of_settle_error {queue : String} {tag : Nat} {requeue : Bool} {e : QueueError}
    (refused : b.settle queue tag requeue = .error e)
    : (b.queueOf queue).pending? tag = none := by
  cases known : b.queue? queue with
  | none => simp [queueOf, known, Queue.pending?]
  | some q =>
      cases found : q.pending? tag with
      | none => simpa [queueOf, known] using found
      | some p => simp [settle, known, Queue.settle, found, Except.map] at refused

/-- A refused settlement moves nothing, as its tag is not pending. -/
theorem settled_of_settle_error {queue : String} {tag : Nat} {requeue : Bool} {e : QueueError}
    (refused : b.settle queue tag requeue = .error e)
    : (b.queueOf queue).settled tag requeue = b.queueOf queue :=
  Queue.settled_of_pending?_eq_none requeue (pending?_of_settle_error refused)

/-- A settlement that succeeds settles the delivery at its own queue and nothing at the others. -/
theorem queueOf_settle {queue : String} {tag : Nat} {requeue : Bool}
    (settled : b.settle queue tag requeue = .ok after) (name : String)
    : after.queueOf name
      = if name = queue then (b.queueOf name).settled tag requeue else b.queueOf name := by
  unfold settle at settled
  cases known : b.queue? queue with
  | none => simp [known] at settled
  | some q =>
      cases outcome : q.settle tag requeue with
      | error e => simp [known, outcome, Except.map] at settled
      | ok result =>
          obtain ⟨delivered, rest⟩ := result
          simp only [known, outcome, Except.map, Except.ok.injEq] at settled
          rw [← settled, queueOf_modifySession]
          by_cases same : name = queue
          · subst same
            simp [queueOf, queue?_modifyQueue, known, Queue.settled, outcome]
          · rw [queueOf_modifyQueue_of_ne _ _ same, if_neg same]

/-- Releasing sessions leaves the queues. -/
theorem queueOf_releaseAll (held : List Pending) (b : State) (name : String)
    : (held.foldl (fun b p => b.modifySession p.session Session.release) b).queueOf name
      = b.queueOf name := by
  induction held generalizing b with
  | nil => rfl
  | cons p held ih => simp [ih]

/-- What a consumer holds of a queue returns there, and nothing happens to the others. -/
theorem queueOf_returnAll (b : State) (queue : String) (consumer : Nat) (name : String)
    : (b.returnAll queue consumer).queueOf name
      = if name = queue then (b.queueOf name).returnAll consumer else b.queueOf name := by
  unfold returnAll
  cases known : b.queue? queue with
  | none =>
      by_cases same : name = queue
      · subst same
        simp [queueOf, known, Queue.returnAll, Queue.heldBy, Queue.putBack]
      · simp [same]
  | some q =>
      simp only [queueOf_releaseAll]
      by_cases same : name = queue
      · subst same
        simp [queueOf, queue?_modifyQueue, known]
      · rw [queueOf_modifyQueue_of_ne _ _ same, if_neg same]

/-- A poll waits at a session and leaves the queues. -/
theorem queueOf_poll {session : Nat} (polled : b.poll? session = some after) (name : String)
    : after.queueOf name = b.queueOf name := by
  obtain ⟨s, _, rfl⟩ := Option.map_eq_some_iff.mp polled
  rfl

end State

-------------------------------------------------------------------------------
-- Producers and outlets
-------------------------------------------------------------------------------

namespace Producer

/-- The moves of a producer's publication at a queue. -/
def moves (p : Producer) (b : State) (body : List UInt8) (name : String) : List Move :=
  if p.connected then b.publication p.settings.exchange p.settings.key body name else []

/-- A publication that succeeds does at each queue what its moves say. -/
theorem queueOf_publish {p : Producer} {b after : State} {body : List UInt8}
    (published : p.publish b body = .ok after) (name : String)
    : after.queueOf name = (b.queueOf name).afterAll (p.moves b body name) := by
  unfold publish at published
  split at published
  · rename_i connected
    simpa [moves, connected] using State.queueOf_route published name
  · cases published

/-- A refused publication moves nothing, be it for the producer or for the route. -/
theorem moves_of_publish_error {p : Producer} {b : State} {body : List UInt8} {e : QueueError}
    (refused : p.publish b body = .error e) (name : String)
    : p.moves b body name = [] := by
  unfold publish at refused
  split at refused
  · rename_i connected
    simpa [moves, connected] using State.publication_of_route_error refused name
  · rename_i connected
    simp [moves, connected]

/-- A producer moves by pushing the body it publishes. -/
theorem push_of_moves {p : Producer} {b : State} {body : List UInt8} {name : String} {move : Move}
    (member : move ∈ p.moves b body name)
    : move = .push body := by
  unfold moves at member
  split at member
  · exact State.push_of_publication member
  · cases member

end Producer

namespace Outlet

/-- The moves of a publication through an outlet at a queue. -/
def moves (o : Outlet) (b : State) (payload : List UInt8) (name : String) : List Move :=
  if 0 < o.balk.times ∧ o.balk.concerns payload then [] else o.producer.moves b payload name

/-- A publication through an outlet does at each queue what its moves say. -/
theorem queueOf_publish (o : Outlet) (b : State) (payload : List UInt8) (name : String)
    : (o.publish b payload).2.2.queueOf name
      = (b.queueOf name).afterAll (o.moves b payload name) := by
  unfold publish moves
  split
  · rfl
  · cases outcome : o.producer.publish b payload with
    | ok after => exact Producer.queueOf_publish outcome name
    | error e => simp [Producer.moves_of_publish_error outcome name]

/-- An outlet moves as its producer does, or not at all. -/
theorem push_of_moves {o : Outlet} {b : State} {payload : List UInt8} {name : String} {move : Move}
    (member : move ∈ o.moves b payload name)
    : move = .push payload := by
  unfold moves at member
  split at member
  · cases member
  · exact Producer.push_of_moves member

end Outlet

-------------------------------------------------------------------------------
-- Consumers
-------------------------------------------------------------------------------

/-- A consumer takes the first ready message of its queue, if there is one, and nothing from the
others. -/
theorem Consumer.queueOf_receive {c : Consumer} {b after : State} {session : Nat} {d : Delivery}
    (received : c.receive? b session = some (d, after)) (name : String)
    : after.queueOf name
      = if name = c.settings.queue then (b.queueOf name).after (.take c.number session)
        else b.queueOf name := by
  obtain ⟨q, known, delivered⟩ := Option.bind_eq_some_iff.mp received
  obtain ⟨⟨p, rest⟩, taken, eq⟩ := Option.map_eq_some_iff.mp delivered
  obtain ⟨-, rfl⟩ := Prod.mk.inj eq
  rw [State.queueOf_modifySession]
  by_cases same : name = c.settings.queue
  · subst same
    simp [State.queueOf, State.queue?_modifyQueue, known, Queue.after, taken]
  · rw [State.queueOf_modifyQueue_of_ne _ _ same, if_neg same]

end Almanac.Broker
