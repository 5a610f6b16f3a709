import Almanac.Proofs.Broker.Closing

/-! The order in which the deliveries of a closed consumer return.
They go back one by one, each to the front of the queue, so that the newest has to go first. Tags
say which is newer, in whatever order the pending deliveries are gone through.
-/

namespace Almanac.Broker

namespace Queue

variable {q : Queue} {p : Pending} {consumer : Nat}

-------------------------------------------------------------------------------
-- Tags in the order of the deliveries
-------------------------------------------------------------------------------

/-- What is pending stands in the order in which it was delivered, and tags grow with it. -/
structure Tagged (q : Queue) : Prop where
  increasing : (q.pending.map Pending.tag).Pairwise (· < ·)
  issued : ∀ p ∈ q.pending, p.tag ≤ q.lastTag

/-- The empty queue has no tags to order. -/
theorem Tagged.start : Tagged {} where
  increasing := .nil
  issued _ member := by cases member

/-- Fewer pending entries stay tagged in order. -/
theorem Tagged.of_sublist (h : q.Tagged) {after : Queue} (fewer : after.pending.Sublist q.pending)
    (same : after.lastTag = q.lastTag)
    : after.Tagged where
  increasing := h.increasing.sublist (fewer.map Pending.tag)
  issued p member := same ▸ h.issued p (fewer.subset member)

/-- A settlement only takes an entry out. -/
theorem Tagged.settled (h : q.Tagged) (tag : Nat) (requeue : Bool)
    : (q.settled tag requeue).Tagged := by
  cases found : q.pending? tag with
  | none => rwa [settled_of_pending?_eq_none requeue found]
  | some p =>
      rw [settled_of_pending? requeue found]
      cases requeue <;> exact h.of_sublist List.filter_sublist rfl

/-- The delivery that a take adds has the greatest tag, and stands last. -/
theorem Tagged.take (h : q.Tagged) (consumer session : Nat)
    : (q.after (.take consumer session)).Tagged := by
  cases ready : q.ready with
  | nil => simpa [after, take?, ready] using h
  | cons message others =>
      have earlier : ∀ p ∈ q.pending, p.tag < q.lastTag + 1 := fun p member =>
        Nat.lt_succ_of_le (h.issued p member)
      simp only [after, take?, ready, Option.map_some, Option.getD_some]
      constructor
      · simpa [List.pairwise_append, h.increasing] using earlier
      · simpa [or_imp, forall_and] using fun p member => (earlier p member).le

/-- Every move keeps the tags in order: a delivery appends the next one, the others remove or
leave them. -/
theorem Tagged.after (h : q.Tagged) (move : Move) : (q.after move).Tagged := by
  cases move with
  | push body => exact ⟨h.increasing, h.issued⟩
  | take consumer session => exact h.take consumer session
  | acknowledge tag => exact h.settled tag false
  | refuse tag requeue => exact h.settled tag requeue
  | returnAll consumer => exact h.of_sublist List.filter_sublist rfl
  | purge => exact ⟨h.increasing, h.issued⟩

/-- Many moves keep the tags in order, by induction on them. -/
theorem Tagged.afterAll (h : q.Tagged) (moves : List Move) : (q.afterAll moves).Tagged := by
  induction moves generalizing q with
  | nil => exact h
  | cons move moves ih => exact ih (h.after move)

/-- Increasing tags do not repeat. -/
theorem Tagged.nodup_tags (h : q.Tagged) : (q.pending.map Pending.tag).Nodup :=
  h.increasing.imp Nat.ne_of_lt

/-- Entries are told apart by their tags. -/
theorem Tagged.eq_of_tag (h : q.Tagged) {other : Pending} (member : p ∈ q.pending)
    (another : other ∈ q.pending) (same : p.tag = other.tag)
    : p = other :=
  List.inj_on_of_nodup_map h.nodup_tags member another same

/-- An entry is found by its own tag, since no other has it. -/
theorem Tagged.pending?_of_mem (h : q.Tagged) (member : p ∈ q.pending)
    : q.pending? p.tag = some p := by
  cases found : q.pending? p.tag with
  | none => exact absurd (List.mem_map_of_mem member) (pending?_eq_none_iff.mp found)
  | some other =>
      have same : other.tag = p.tag := by simpa using List.find?_some found
      rw [h.eq_of_tag (List.mem_of_find?_eq_some found) member same]

-------------------------------------------------------------------------------
-- One delivery after the other
-------------------------------------------------------------------------------

/-- The tags of what a consumer holds among some deliveries, newest first. -/
def heldTags (entries : List Pending) (consumer : Nat) : List Nat :=
  ((entries.filter (·.consumer = consumer)).map Pending.tag).mergeSort fun a b => b ≤ a

/-- Returns what a consumer holds one by one, newest first, and counts it. The pending deliveries
are gone through in the order of `entries`. -/
def returnEach (q : Queue) (entries : List Pending) (consumer : Nat) : Nat × Queue :=
  let tags := heldTags entries consumer
  (tags.length, tags.foldl (fun q tag => q.settled tag true) q)

/-- The tags to be returned are sorted from the latest down. -/
theorem pairwise_heldTags (entries : List Pending) (consumer : Nat)
    : (heldTags entries consumer).Pairwise (· ≥ ·) := by
  refine (List.pairwise_mergeSort ?_ ?_ _).imp of_decide_eq_true
  · intro a b c
    simpa using fun ge next => le_trans next ge
  · intro a b
    simpa using le_total b a

/-- What one consumer holds is a part of what is pending, in the same order. -/
theorem Tagged.increasing_heldBy (h : q.Tagged) (consumer : Nat)
    : ((q.heldBy consumer).map Pending.tag).Pairwise (· < ·) :=
  h.increasing.sublist (List.filter_sublist.map Pending.tag)

/-- The order in which deliveries are gone through is lost by sorting, since tags are distinct. -/
theorem Tagged.heldTags_eq (h : q.Tagged) {entries : List Pending} (same : entries.Perm q.pending)
    (consumer : Nat)
    : heldTags entries consumer = ((q.heldBy consumer).map Pending.tag).reverse := by
  have perm : (heldTags entries consumer).Perm ((q.heldBy consumer).map Pending.tag).reverse :=
    (List.mergeSort_perm _ _).trans
      (((same.filter _).map Pending.tag).trans (List.reverse_perm _).symm)
  have newestFirst : ((q.heldBy consumer).map Pending.tag).reverse.Pairwise (· ≥ ·) :=
    List.pairwise_reverse.mpr ((h.increasing_heldBy consumer).imp Nat.le_of_lt)
  exact perm.eq_of_pairwise (fun a b _ _ ge le => le_antisymm le ge)
    (pairwise_heldTags entries consumer) newestFirst

/-- One more tag that is removed is one more delivery. -/
theorem Tagged.filter_tag_ne (h : q.Tagged) (pending : p ∈ q.pending) (held : List Pending)
    : (q.pending.filter (· ∉ held)).filter (·.tag ≠ p.tag)
      = q.pending.filter (· ∉ p :: held) := by
  rw [List.filter_filter]
  refine List.filter_congr fun other member => ?_
  have same : other.tag = p.tag ↔ other = p :=
    ⟨h.eq_of_tag member pending, congrArg Pending.tag⟩
  simp [same]

/-- Deliveries that are returned one by one, from the last to the first, end up in front in their
order. By induction on the deliveries: the first of them is still pending when its turn comes. -/
theorem Tagged.foldr_settled (h : q.Tagged) {held : List Pending}
    (among : held.Sublist q.pending)
    : (held.map Pending.tag).foldr (fun tag q => q.settled tag true) q
      = { q with pending := q.pending.filter (· ∉ held) }.putBack (held.map Pending.message) := by
  induction held with
  | nil => simp [putBack]
  | cons p rest ih =>
      have pending : p ∈ q.pending := among.subset List.mem_cons_self
      have distinct : q.pending.Nodup := .of_map Pending.tag h.nodup_tags
      have apart : p ∉ rest := (List.nodup_cons.mp (among.nodup distinct)).1
      rw [List.map_cons, List.foldr_cons, ih (List.sublist_of_cons_sublist among)]
      have tagged : ({ q with pending := q.pending.filter (· ∉ rest) }.putBack
          (rest.map Pending.message)).Tagged := h.of_sublist List.filter_sublist rfl
      rw [settled_of_pending? true (tagged.pending?_of_mem (by simp [putBack, pending, apart]))]
      simp only [if_true, putBack, remove, h.filter_tag_ne pending, List.map_cons, List.map_nil,
        List.cons_append, List.nil_append]

/-- Returning what a consumer holds one by one comes to returning it all at once. -/
theorem Tagged.returnEach_eq (h : q.Tagged) {entries : List Pending}
    (same : entries.Perm q.pending) (consumer : Nat)
    : q.returnEach entries consumer = ((q.heldBy consumer).length, q.returnAll consumer) := by
  have others : q.pending.filter (· ∉ q.heldBy consumer)
      = q.pending.filter (·.consumer ≠ consumer) := by
    refine List.filter_congr fun p member => ?_
    simp [mem_heldBy_iff, member]
  simp only [returnEach, h.heldTags_eq same, List.foldl_reverse,
    h.foldr_settled List.filter_sublist, heldBy, List.length_reverse, List.length_map]
  rw [← heldBy, others]
  rfl

-------------------------------------------------------------------------------
-- Messages that are taken and return
-------------------------------------------------------------------------------

/-- The bodies that are ready once a consumer gives back what it holds. -/
def bodiesFor (q : Queue) (consumer : Nat) : List (List UInt8) :=
  (q.heldBy consumer).map (·.message.body) ++ q.ready.map Message.body

/-- After a return, the queue holds the bodies it held for the consumer and then its own. -/
theorem bodies_returnAll (q : Queue) (consumer : Nat)
    : (q.returnAll consumer).ready.map Message.body = q.bodiesFor consumer := by
  simp [returnAll, putBack, bodiesFor, Message.again, Function.comp_def]

/-- For a consumer that holds nothing, the bodies are those of the queue. -/
theorem bodiesFor_of_heldBy_nil (nothing : q.heldBy consumer = [])
    : q.bodiesFor consumer = q.ready.map Message.body := by
  rw [bodiesFor, nothing, List.map_nil, List.nil_append]

/-- A take moves a body from the front of what is ready to the end of what is held. -/
theorem bodiesFor_take (q : Queue) (consumer session : Nat)
    : (q.after (.take consumer session)).bodiesFor consumer = q.bodiesFor consumer := by
  cases ready : q.ready with
  | nil => simp [after, take?, ready]
  | cons message others => simp [after, take?, ready, bodiesFor, heldBy]

/-- A consumer takes messages one after the other, through streams of these sessions. -/
def takes (consumer : Nat) (sessions : List Nat) : List Move :=
  sessions.map fun session => .take consumer session

/-- Deliveries to a consumer keep the bodies it would return, one delivery at a time. -/
theorem bodiesFor_takes (q : Queue) (consumer : Nat) (sessions : List Nat)
    : (q.afterAll (takes consumer sessions)).bodiesFor consumer = q.bodiesFor consumer := by
  induction sessions generalizing q with
  | nil => rfl
  | cons session sessions ih => exact (ih _).trans (q.bodiesFor_take consumer session)

/-- What a queue is left with when a consumer's deliveries return. -/
structure ReturnsInOrder (q : Queue) (consumer : Nat) : Prop where
  /-- In whatever order the pending deliveries are gone through, the same ones return. -/
  oneByOne
    : ∀ entries, entries.Perm q.pending →
        q.returnEach entries consumer = ((q.heldBy consumer).length, q.returnAll consumer)
  held : ∀ p, p ∈ q.heldBy consumer ↔ p ∈ q.pending ∧ p.consumer = consumer
  oldestFirst : ((q.heldBy consumer).map Pending.tag).Pairwise (· < ·)
  /-- They stand before everything that was ready, flagged and otherwise as they were. -/
  ready
    : (q.returnAll consumer).ready
        = (q.heldBy consumer).map (fun p => { p.message with redelivered := true }) ++ q.ready
  /-- The others stay pending as they are. -/
  pending : (q.returnAll consumer).pending = q.pending.filter (·.consumer ≠ consumer)
  /-- A consumer that held nothing takes some messages and returns them: all is back in place. -/
  restored
    : q.heldBy consumer = [] → ∀ after sessions entries,
        after = q.afterAll (takes consumer sessions) → entries.Perm after.pending →
        (after.returnEach entries consumer).2.ready.map Message.body
          = q.ready.map Message.body

/-- Tags in order are all that an orderly return needs, clause by clause. -/
theorem Tagged.returnsInOrder (h : q.Tagged) (consumer : Nat) : q.ReturnsInOrder consumer where
  oneByOne entries same := h.returnEach_eq same consumer
  held _ := mem_heldBy_iff
  oldestFirst := h.increasing_heldBy consumer
  ready := by simp [returnAll, putBack, Message.again]
  pending := rfl
  restored := by
    rintro nothing after sessions entries rfl same
    rw [(h.afterAll _).returnEach_eq same, bodies_returnAll, bodiesFor_takes,
      bodiesFor_of_heldBy_nil nothing]

end Queue

namespace Consumer

/-- A consumer takes some messages, one after the other, through any of its sessions. -/
inductive Takes (c : Consumer) (b : State) : State → Prop where
  | none : Takes c b b
  | next {middle after : State} {session : Nat} {d : Delivery} (earlier : Takes c b middle)
    (taken : c.take? middle session = some (d, after))
    : Takes c b after

variable {c : Consumer} {b after : State}

/-- Taking a delivery is one move of the consumer's own queue; the poll before it moves nothing. -/
theorem queueOf_take {session : Nat} {d : Delivery}
    (taken : c.take? b session = some (d, after))
    : after.queueOf c.settings.queue
      = (b.queueOf c.settings.queue).after (.take c.number session) := by
  obtain ⟨polled, waits, received⟩ := Option.bind_eq_some_iff.mp taken
  rw [queueOf_receive received, if_pos rfl, State.queueOf_poll waits]

/-- Closing a connected consumer returns all that it holds. -/
theorem queueOf_close {session : Nat} (connected : c.session = some session) (b : State)
    : (c.close b).2.queueOf c.settings.queue
      = (b.queueOf c.settings.queue).returnAll c.number := by
  simp [close, connected, State.queueOf_returnAll]

/-- What a consumer takes are takes at its queue, by induction on them. -/
theorem Takes.queueOf (takes : c.Takes b after)
    : ∃ sessions, after.queueOf c.settings.queue
        = (b.queueOf c.settings.queue).afterAll (Queue.takes c.number sessions) := by
  induction takes with
  | none => exact ⟨[], rfl⟩
  | @next middle after session d earlier taken ih =>
      obtain ⟨sessions, same⟩ := ih
      refine ⟨sessions ++ [session], ?_⟩
      rw [queueOf_take taken, same]
      simp [Queue.takes, Queue.afterAll]

/-- A connected consumer that held nothing takes some messages and is closed: the bodies that were
ready are ready again, in the same order. -/
def RestoresQueue (c : Consumer) (b : State) : Prop :=
  c.session.isSome → (b.queueOf c.settings.queue).heldBy c.number = [] →
    ∀ after, c.Takes b after →
      ((c.close after).2.queueOf c.settings.queue).ready.map Message.body
        = (b.queueOf c.settings.queue).ready.map Message.body

/-- Taking and closing restores the bodies of the queue, whichever sessions took them. -/
theorem restoresQueue (c : Consumer) (b : State) : c.RestoresQueue b := by
  intro isOpen nothing after takes
  obtain ⟨session, connected⟩ := Option.isSome_iff_exists.mp isOpen
  obtain ⟨sessions, same⟩ := takes.queueOf
  rw [queueOf_close connected, Queue.bodies_returnAll, same, Queue.bodiesFor_takes,
    Queue.bodiesFor_of_heldBy_nil nothing]

end Consumer

namespace Market

/-- In every reachable market the tags of each queue are in order, by induction on the acts from
the last one. -/
theorem tagged_run (acts : List MarketAct) (name : String)
    : ((run {} acts).broker.queueOf name).Tagged := by
  induction acts using List.reverseRecOn with
  | nil => exact .start
  | append_singleton acts act ih =>
      rw [run_concat, queueOf_step]
      exact ih.afterAll _

/-- What a consumer holds returns in the order in which it was delivered, at every queue that tags
its deliveries, as all queues of a broker in use do. -/
theorem closing_keeps_order
    : (∀ acts name, ((run {} acts).broker.queueOf name).Tagged)
      ∧ (∀ q : Queue, q.Tagged → ∀ consumer, q.ReturnsInOrder consumer)
      ∧ ∀ (c : Consumer) b, c.RestoresQueue b :=
  ⟨tagged_run, fun _ tagged => tagged.returnsInOrder, Consumer.restoresQueue⟩

/-- One message is ready, and two consumers hold messages in turns. A delivery between theirs is
settled. -/
def interleaved : Queue where
  ready := [⟨5, [50], false⟩]
  pending := [⟨1, ⟨1, [10], false⟩, 1, 1⟩, ⟨2, ⟨2, [20], true⟩, 2, 2⟩, ⟨4, ⟨4, [40], false⟩, 1, 1⟩]
  published := 5
  lastTag := 4

/-- A broker with that queue, and a session with one slot. -/
def jobs : State :=
  { queues := [("jobs", interleaved)], sessions := [.start 1 1], lastConsumer := 3 }

/-- Another consumer of that queue, which holds nothing. -/
def newcomer : Consumer :=
  { settings := { queue := "jobs" }, number := 3, session := some 1 }

/-- The first consumer's messages return in front, though the newest of them is met first. The
newcomer takes the ready message and is closed, and it is ready again. -/
theorem closing_keeps_order_interleaved
    : interleaved.returnEach interleaved.pending.reverse 1
        = (2,
          { interleaved with
            ready := [⟨1, [10], true⟩, ⟨4, [40], true⟩, ⟨5, [50], false⟩]
            pending := [⟨2, ⟨2, [20], true⟩, 2, 2⟩] })
      ∧ ((interleaved.after (.take 3 1)).returnEach (interleaved.after (.take 3 1)).pending
            3).2.ready.map Message.body
          = [[50]]
      ∧ ∃ d after, newcomer.take? jobs 1 = some (d, after)
          ∧ ((newcomer.close after).2.queueOf "jobs").ready.map Message.body = [[50]] := by
  have tagged : interleaved.Tagged := ⟨by decide, by decide⟩
  have first := closing_keeps_order.2.1 interleaved tagged 1
  have third := closing_keeps_order.2.1 interleaved tagged 3
  obtain ⟨d, after, taken⟩ : ∃ d after, newcomer.take? jobs 1 = some (d, after) := ⟨_, _, rfl⟩
  have closed := closing_keeps_order.2.2 newcomer jobs rfl rfl after (.next .none taken)
  exact ⟨first.oneByOne _ (List.reverse_perm _), third.restored rfl _ [1] _ rfl (.refl _),
    d, after, taken, closed⟩

end Market

end Almanac.Broker
