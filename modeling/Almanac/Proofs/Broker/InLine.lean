import Almanac.Proofs.Broker.Conservation

/-! The order of deliveries from one queue.
Messages that were delivered before stand at the front of what is ready, flagged, and all others
behind them in the order of publication. So a flag tells whether a copy was delivered before, and
copies are delivered for the first time in the order in which they came.
-/

namespace Almanac.Broker

-------------------------------------------------------------------------------
-- Deliveries that were written down
-------------------------------------------------------------------------------

/-- The copy that is delivered. -/
def Happening.delivery? : Happening → Option Copy
  | .delivered copy _ => some copy
  | _ => none

/-- The copies that were delivered, each as often as it was. -/
def deliveries (log : List Happening) : List Copy :=
  log.filterMap Happening.delivery?

/-- The copies that were delivered, each at the place of its first delivery. -/
def firstDeliveries (log : List Happening) : List Copy :=
  (deliveries log).eraseDups

section Deliveries

variable {log more : List Happening} {copy : Copy} {tag : Nat}

/-- A copy is among the deliveries exactly if the log has it delivered under some tag. -/
theorem mem_deliveries_iff : copy ∈ deliveries log ↔ ∃ tag, .delivered copy tag ∈ log := by
  rw [deliveries, List.mem_filterMap]
  constructor
  · rintro ⟨happening, logged, eq⟩
    cases happening with
    | delivered other tag =>
        cases eq
        exact ⟨tag, logged⟩
    | _ => cases eq
  · rintro ⟨tag, logged⟩
    exact ⟨_, logged, rfl⟩

theorem deliveries_append (log more : List Happening)
    : deliveries (log ++ more) = deliveries log ++ deliveries more :=
  List.filterMap_append

/-- What delivers nothing changes no first delivery. -/
theorem firstDeliveries_of_quiet (quiet : deliveries more = [])
    : firstDeliveries (log ++ more) = firstDeliveries log := by
  rw [firstDeliveries, deliveries_append, quiet, List.append_nil, firstDeliveries]

theorem deliveries_concat (log : List Happening) (copy : Copy) (tag : Nat)
    : deliveries (log ++ [.delivered copy tag]) = deliveries log ++ [copy] :=
  deliveries_append log _

/-- A copy that was delivered before does not count again. -/
theorem firstDeliveries_again (before : copy ∈ deliveries log) (tag : Nat)
    : firstDeliveries (log ++ [.delivered copy tag]) = firstDeliveries log := by
  rw [firstDeliveries, deliveries_concat, List.eraseDups_append, firstDeliveries]
  simp [List.removeAll, before]

/-- A copy that was never delivered is the last of the first deliveries. -/
theorem firstDeliveries_new (never : copy ∉ deliveries log) (tag : Nat)
    : firstDeliveries (log ++ [.delivered copy tag]) = firstDeliveries log ++ [copy] := by
  rw [firstDeliveries, deliveries_concat, List.eraseDups_append, firstDeliveries]
  simp [List.removeAll, never, List.eraseDups_cons]

end Deliveries

-------------------------------------------------------------------------------
-- What stands in line
-------------------------------------------------------------------------------

namespace Queue

/-- The ready messages that are flagged. -/
def returned (q : Queue) : List Message :=
  q.ready.filter (·.redelivered)

/-- The ready messages that are not. -/
def fresh (q : Queue) : List Message :=
  q.ready.filter (!·.redelivered)

/-- How ready messages stand in line, where `log` is what happened at the queue so far. -/
structure InLine (q : Queue) (log : List Happening) : Prop where
  /-- Those that are flagged come first. -/
  shape : q.ready = q.returned ++ q.fresh
  again : ∀ m ∈ q.returned, m.copy ∈ deliveries log
  /-- Copies were delivered for the first time in the order in which they came, and will be. -/
  order
    : (firstDeliveries log ++ q.fresh.map Message.copy).Sublist
        (log.filterMap Happening.arrival?)

variable {q : Queue} {log : List Happening}

theorem InLine.start : InLine {} [] where
  shape := rfl
  again _ member := by cases member
  order := .slnil

/-- What is flagged was delivered before, and what is not was never delivered: no copy comes
twice. -/
theorem InLine.redelivered_iff (h : q.InLine log) (balanced : q.Accounted log) {m : Message}
    (ready : m ∈ q.ready)
    : m.redelivered ↔ m.copy ∈ deliveries log := by
  constructor
  · intro flagged
    exact h.again m (List.mem_filter.mpr ⟨ready, flagged⟩)
  · intro before
    by_contra unflagged
    have isFresh : m ∈ q.fresh := List.mem_filter.mpr ⟨ready, by simpa using unflagged⟩
    have once := h.order.nodup balanced.nodup_arrivals
    have apart := (List.nodup_append.mp once).2.2
    exact apart m.copy (List.mem_eraseDups.mpr before) m.copy (List.mem_map_of_mem isFresh) rfl

/-- Nothing flagged is ready behind a message that is not flagged. -/
theorem InLine.fresh_eq (h : q.InLine log) {m : Message} {rest : List Message}
    (first : q.ready = m :: rest) (unflagged : ¬m.redelivered)
    : q.fresh = m :: rest := by
  cases none : q.returned with
  | nil => rw [← first, h.shape, none, List.nil_append]
  | cons other others =>
      have isFirst : m = other := by
        have shape := h.shape
        rw [first, none] at shape
        exact (List.cons.inj shape).1
      have flagged : other ∈ q.returned := by simp [none]
      exact absurd (List.mem_filter.mp flagged).2 (isFirst ▸ unflagged)

-------------------------------------------------------------------------------
-- Every move leaves them in line
-------------------------------------------------------------------------------

/-- A pushed message joins the line at its end. -/
theorem InLine.push (h : q.InLine log) (body : List UInt8)
    : (q.push body).InLine (log ++ [.enqueued ⟨q.published + 1, body⟩]) := by
  have returned : (q.push body).returned = q.returned := by
    simp [Queue.returned, Queue.push]
  have fresh : (q.push body).fresh = q.fresh ++ [⟨q.published + 1, body, false⟩] := by
    simp [Queue.fresh, Queue.push]
  refine ⟨?_, ?_, ?_⟩
  · rw [returned, fresh, ← List.append_assoc, ← h.shape]
    rfl
  · intro m member
    rw [returned] at member
    rw [deliveries_append]
    exact List.mem_append_left _ (h.again m member)
  · rw [firstDeliveries_of_quiet rfl, fresh, List.map_append, ← List.append_assoc,
      List.filterMap_append]
    exact h.order.append (.refl _)

/-- A flagged message leaves the line, of which it is the first. -/
theorem InLine.takeAgain (h : q.InLine log) {m : Message} {rest : List Message}
    (first : q.ready = m :: rest) (flagged : m.redelivered) (after : Queue)
    (left : after.ready = rest) (tag : Nat)
    : after.InLine (log ++ [.delivered m.copy tag]) := by
  have returned : q.returned = m :: after.returned := by
    rw [Queue.returned, first, List.filter_cons_of_pos flagged, Queue.returned, left]
  have fresh : q.fresh = after.fresh := by
    rw [Queue.fresh, first, List.filter_cons_of_neg (by simpa using flagged), Queue.fresh, left]
  have known : m.copy ∈ deliveries log := h.again m (by simp [returned])
  refine ⟨?_, ?_, ?_⟩
  · have shape := h.shape
    rw [first, returned, fresh, List.cons_append] at shape
    rw [left]
    exact (List.cons.inj shape).2
  · intro other member
    rw [deliveries_append]
    exact List.mem_append_left _ (h.again other (returned ▸ List.mem_cons_of_mem _ member))
  · rw [firstDeliveries_again known, ← fresh, List.filterMap_append]
    exact h.order.trans (List.sublist_append_left _ _)

/-- A message that is not flagged leaves the line. It is the next to be delivered for the first
time, and nothing flagged is left. -/
theorem InLine.takeFresh (h : q.InLine log) {m : Message} {rest : List Message}
    (first : q.ready = m :: rest) (unflagged : ¬m.redelivered)
    (never : m.copy ∉ deliveries log) (after : Queue) (left : after.ready = rest) (tag : Nat)
    : after.InLine (log ++ [.delivered m.copy tag]) := by
  have all := h.fresh_eq first unflagged
  have others : ∀ other ∈ rest, ¬other.redelivered := by
    intro other member
    have isFresh : other ∈ q.fresh := all ▸ List.mem_cons_of_mem _ member
    simpa using (List.mem_filter.mp isFresh).2
  have returned : after.returned = [] := by
    rw [Queue.returned, left]
    exact List.filter_eq_nil_iff.mpr others
  have fresh : after.fresh = rest := by
    rw [Queue.fresh, left]
    exact List.filter_eq_self.mpr fun other member => by simpa using others other member
  refine ⟨?_, ?_, ?_⟩
  · rw [returned, fresh, left, List.nil_append]
  · intro other member
    rw [returned] at member
    cases member
  · have order := h.order
    rw [all] at order
    rw [firstDeliveries_new never, fresh, List.append_assoc, List.filterMap_append]
    exact order.trans (List.sublist_append_left _ _)

/-- The first message of the line leaves it. -/
theorem InLine.take (h : q.InLine log) (balanced : q.Accounted log) {m : Message}
    {rest : List Message} (first : q.ready = m :: rest) (after : Queue) (left : after.ready = rest)
    (tag : Nat)
    : after.InLine (log ++ [.delivered m.copy tag]) := by
  have delivered := h.redelivered_iff balanced (m := m) (by simp [first])
  by_cases flagged : m.redelivered
  · exact h.takeAgain first flagged after left tag
  · exact h.takeFresh first flagged (fun known => flagged (delivered.mpr known)) after left tag

/-- Messages that were delivered come back to the front of the line. -/
theorem InLine.putBack (h : q.InLine log) (messages : List Message) (after : Queue)
    (back : after.ready = messages.map Message.again ++ q.ready)
    (delivered : ∀ m ∈ messages, m.copy ∈ deliveries log) {more : List Happening}
    (quiet : deliveries more = []) (none : more.filterMap Happening.arrival? = [])
    : after.InLine (log ++ more) := by
  have returned : after.returned = messages.map Message.again ++ q.returned := by
    rw [Queue.returned, back, List.filter_append, ← Queue.returned]
    congr 1
    simp [List.filter_eq_self, Message.again]
  have fresh : after.fresh = q.fresh := by
    rw [Queue.fresh, back, List.filter_append, ← Queue.fresh]
    simp [List.filter_eq_nil_iff, Message.again]
  refine ⟨?_, ?_, ?_⟩
  · rw [returned, fresh, List.append_assoc, ← h.shape, back]
  · intro m member
    rw [returned] at member
    rw [deliveries_append]
    refine List.mem_append_left _ ?_
    rcases List.mem_append.mp member with again | earlier
    · obtain ⟨before, present, rfl⟩ := List.mem_map.mp again
      exact delivered before present
    · exact h.again m earlier
  · rw [firstDeliveries_of_quiet quiet, fresh, List.filterMap_append, none, List.append_nil]
    exact h.order

/-- A purge empties the line, and what was never delivered is then never delivered; the order of
the others stays. -/
theorem InLine.purge (h : q.InLine log)
    : q.purge.InLine (log ++ q.ready.map fun m => .purged m.copy) where
  shape := rfl
  again _ member := by cases member
  order := by
    have quiet : deliveries (q.ready.map fun m => .purged m.copy) = [] := by
      simp [deliveries, Happening.delivery?, Function.comp_def]
    have none : (q.ready.map fun m => .purged m.copy).filterMap Happening.arrival? = [] := by
      simp [Happening.arrival?, Function.comp_def]
    rw [firstDeliveries_of_quiet quiet, List.filterMap_append, none, List.append_nil]
    exact (List.sublist_append_left _ _).trans (by simpa [Queue.fresh, Queue.purge] using h.order)

/-- A settled delivery changes nothing in the line, or comes back to the front of it. `happening` is
any of the three ways to settle. -/
theorem InLine.settled (h : q.InLine log) (balanced : q.Accounted log) {tag : Nat} {p : Pending}
    (found : q.pending? tag = some p) (requeue : Bool) {happening : Happening}
    (quiet : happening.delivery? = none) (none : happening.arrival? = none)
    : (q.settled tag requeue).InLine (log ++ [happening]) := by
  have delivered : p.message.copy ∈ deliveries log :=
    mem_deliveries_iff.mpr ⟨_, balanced.delivered p (List.mem_of_find?_eq_some found)⟩
  have quiet : deliveries [happening] = [] := by simp [deliveries, quiet]
  have none : [happening].filterMap Happening.arrival? = [] := by simp [none]
  rw [settled_of_pending? requeue found]
  cases requeue with
  | false => exact h.putBack [] (q.remove tag) rfl (by simp) quiet none
  | true => exact h.putBack [p.message] _ rfl (by simpa using delivered) quiet none

/-- Returned messages were delivered, which is why they stand in front and flagged. -/
theorem InLine.returnAll (h : q.InLine log) (balanced : q.Accounted log) (consumer : Nat)
    : (q.returnAll consumer).InLine
        (log ++ (q.heldBy consumer).map fun p => .returned p.copy p.tag) := by
  refine h.putBack ((q.heldBy consumer).map Pending.message) _ rfl ?_ ?_ ?_
  · intro m member
    obtain ⟨p, held, rfl⟩ := List.mem_map.mp member
    exact mem_deliveries_iff.mpr ⟨_, balanced.delivered p (List.mem_of_mem_filter held)⟩
  · simp [deliveries, Happening.delivery?, Function.comp_def]
  · simp [Happening.arrival?, Function.comp_def]

/-- Every move leaves what is ready in line, by cases on the move. -/
theorem InLine.after (h : q.InLine log) (balanced : q.Accounted log) (move : Move)
    : (q.after move).InLine (log ++ q.happenings move) := by
  cases move with
  | push body => exact h.push body
  | take consumer session =>
      cases first : q.ready with
      | nil => simpa [Queue.after, happenings, take?, first] using h
      | cons m rest =>
          simpa [Queue.after, happenings, take?, first]
            using h.take balanced first ⟨rest, _, _, _⟩ rfl (q.lastTag + 1)
  | acknowledge tag =>
      cases found : q.pending? tag with
      | none =>
          simpa [Queue.after, happenings, found, settled_of_pending?_eq_none false found] using h
      | some p => simpa [Queue.after, happenings, found] using h.settled balanced found false rfl rfl
  | refuse tag requeue =>
      cases found : q.pending? tag with
      | none =>
          cases requeue <;>
            simpa [Queue.after, happenings, found, settled_of_pending?_eq_none _ found] using h
      | some p =>
          cases requeue <;>
            simpa [Queue.after, happenings, found] using h.settled balanced found _ rfl rfl
  | returnAll consumer => exact h.returnAll balanced consumer
  | purge => exact h.purge

/-- What is in line before moves is in line after them, by induction on the moves. -/
theorem InLine.afterAll (h : q.InLine log) (balanced : q.Accounted log) (moves : List Move)
    : (q.afterAll moves).InLine (log ++ q.log moves) := by
  induction moves generalizing q log with
  | nil => simpa [Queue.afterAll, Queue.log] using h
  | cons move moves ih =>
      simpa [Queue.afterAll, Queue.log] using ih (h.after balanced move) (balanced.after move)

end Queue

-------------------------------------------------------------------------------
-- Runs
-------------------------------------------------------------------------------

namespace Market

variable {m : Market} {name : String} {log : List Happening}

/-- What is ready on a queue stands in line after any acts, by induction on the acts. -/
theorem inLine_run (h : (m.broker.queueOf name).InLine log)
    (balanced : (m.broker.queueOf name).Accounted log) (acts : List MarketAct)
    : ((m.run acts).broker.queueOf name).InLine (log ++ m.history name acts) := by
  induction acts generalizing m log with
  | nil => simpa [run, history] using h
  | cons act acts ih =>
      have next := h.afterAll balanced (m.actMoves name act)
      have accounts := balanced.afterAll (m.actMoves name act)
      rw [← queueOf_step] at next accounts
      simpa [run, history] using ih next accounts

/-- In what order a queue delivers, where `log` is what happened there so far. -/
structure DeliversInOrder (m : Market) (name : String) (log : List Happening) : Prop where
  /-- The ready messages that are flagged come first, then those that are not. -/
  line
    : (m.broker.queueOf name).ready
        = (m.broker.queueOf name).returned ++ (m.broker.queueOf name).fresh
  /-- The flag says whether the copy was delivered before. -/
  flag
    : ∀ message ∈ (m.broker.queueOf name).ready,
        message.redelivered ↔ ∃ tag, .delivered message.copy tag ∈ log
  /-- Those that were never delivered stand in the order of publication. -/
  published
    : ((m.broker.queueOf name).fresh.map Message.copy).Sublist
        (log.filterMap Happening.arrival?)
  /-- So a delivery says whether its copy was delivered before. -/
  told
    : ∀ place session d after, m.receive? place session = some (d, after) → d.queue = name →
        ∃ copy, m.history name [.receive place session] = [.delivered copy d.tag]
          ∧ copy.body = d.body ∧ (d.redelivered ↔ ∃ tag, .delivered copy tag ∈ log)
  /-- What was returned is delivered before anything that was not. -/
  returnedFirst
    : ∀ place session d after, m.receive? place session = some (d, after) → d.queue = name →
        d.redelivered = false → (m.broker.queueOf name).returned = []
  /-- Copies are delivered for the first time in the order of publication. -/
  first : (firstDeliveries log).Sublist (log.filterMap Happening.arrival?)

/-- A queue in line tells every delivery truly: its flag, its order among the first ones and its
place behind what was returned. -/
theorem deliversInOrder_of_inLine (h : (m.broker.queueOf name).InLine log)
    (balanced : (m.broker.queueOf name).Accounted log)
    : m.DeliversInOrder name log where
  line := h.shape
  flag message ready := (h.redelivered_iff balanced ready).trans mem_deliveries_iff
  published := (List.sublist_append_right _ _).trans h.order
  told place session d after received here := by
    obtain ⟨message, rest, ready, body, flagged, -, logged⟩ := ready_of_receive? received
    subst here
    refine ⟨message.copy, by simpa [history, actMoves] using logged, body.symm, ?_⟩
    rw [flagged, h.redelivered_iff balanced (by simp [ready]), mem_deliveries_iff]
  returnedFirst place session d after received here unflagged := by
    obtain ⟨message, rest, ready, -, flagged, -⟩ := ready_of_receive? received
    subst here
    have line := h.shape
    rw [h.fresh_eq ready (by simp [← flagged, unflagged]), ← ready] at line
    exact List.self_eq_append_left.mp line
  first := (List.sublist_append_left _ _).trans h.order

/-- Every queue delivers in order after any acts of any clients. -/
theorem deliversInOrder_run (acts : List MarketAct) (name : String)
    : (run {} acts).DeliversInOrder name (history {} name acts) := by
  have line : (({} : Market).broker.queueOf name).InLine [] := Queue.InLine.start
  have accounts : (({} : Market).broker.queueOf name).Accounted [] := Queue.Accounted.start
  simpa only [List.nil_append]
    using deliversInOrder_of_inLine (inLine_run line accounts acts) (accounted_run accounts acts)

end Market

end Almanac.Broker
