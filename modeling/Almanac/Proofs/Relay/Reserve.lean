import Almanac.Proofs.Broker.Closing
import Almanac.Proofs.Broker.InLine
import Almanac.Proofs.Relay.AtLeastOnce

/-! A queue that one consumer has for itself.
While nobody else takes from it and nobody purges it, a message that the consumer took is in its
hands, or settled, or back on the queue and flagged.
-/

namespace Almanac

open Broker

namespace Broker

-------------------------------------------------------------------------------
-- What one consumer holds of a queue
-------------------------------------------------------------------------------

/-- Whether a move leaves a queue to a consumer: nobody else takes a message and none is purged. -/
def Move.LeavesTo (consumer : Nat) : Move → Prop
  | .take other _ => other = consumer
  | .purge => False
  | _ => True

namespace Queue

variable {q : Queue} {log since : List Happening} {copy : Copy} {consumer : Nat}

/-- A move delivers what is ready before it. -/
theorem ready_of_delivered {move : Move} (delivered : copy ∈ deliveries (q.happenings move))
    : copy ∈ q.ready.map Message.copy := by
  obtain ⟨tag, happened⟩ := mem_deliveries_iff.mp delivered
  cases move with
  | take other session =>
      obtain ⟨m, first, same, -⟩
          : ∃ m, q.ready.head? = some m ∧ m.copy = copy ∧ q.lastTag + 1 = tag := by
        simpa [happenings] using happened
      exact List.mem_map.mpr ⟨m, List.mem_of_mem_head? first, same⟩
  | refuse other requeue => cases requeue <;> simp [happenings] at happened
  | _ => simp [happenings] at happened

/-- What was delivered had come to the queue. -/
theorem InLine.mem_arrivals (h : q.InLine log) (delivered : copy ∈ deliveries log)
    : copy ∈ log.filterMap Happening.arrival? :=
  h.order.subset (List.mem_append_left _ (List.mem_eraseDups.mpr delivered))

/-- No copy is ready and pending at once, since each of them is in one place. -/
theorem Accounted.not_pending (h : q.Accounted log) (ready : copy ∈ q.ready.map Message.copy)
    : copy ∉ q.pending.map Pending.copy := by
  have places := h.count_places (h.arrival_of_has (.inl ready))
  have here := List.count_pos_iff.mpr ready
  rw [← List.count_eq_zero]
  omega

/-- What moves deliver was not gone before them, by induction on the moves. -/
theorem Accounted.not_exit_of_delivered (h : q.Accounted log) {moves : List Move}
    (delivered : copy ∈ deliveries (q.log moves))
    : copy ∉ log.filterMap Happening.exit? := by
  induction moves generalizing q log with
  | nil => cases delivered
  | cons move moves ih =>
      rw [Queue.log, deliveries_append, List.mem_append] at delivered
      rcases delivered with now | later
      · have here : q.Has copy := .inl (ready_of_delivered now)
        exact (h.has_iff (h.arrival_of_has here)).mp here
      · intro gone
        refine ih (h.after move) later ?_
        rw [List.filterMap_append]
        exact List.mem_append_left _ gone

/-- Whether a consumer holds all that is pending of what was delivered since some time. -/
def HeldFor (q : Queue) (since : List Happening) (consumer : Nat) : Prop :=
  ∀ p ∈ q.pending, p.copy ∈ deliveries since → p.consumer = consumer

/-- A move that leaves the queue to the consumer makes nothing pending for others. -/
theorem HeldFor.after (h : q.HeldFor since consumer) (balanced : q.Accounted log) {move : Move}
    (leaves : move.LeavesTo consumer)
    : (q.after move).HeldFor (since ++ q.happenings move) consumer := by
  intro p member delivered
  rcases mem_pending_after member with earlier | ⟨session, rfl⟩
  · rw [deliveries_append, List.mem_append] at delivered
    rcases delivered with before | now
    · exact h p earlier before
    · exact absurd (List.mem_map_of_mem earlier) (balanced.not_pending (ready_of_delivered now))
  · exact leaves

theorem HeldFor.afterAll (h : q.HeldFor since consumer) (balanced : q.Accounted log)
    {moves : List Move} (leaves : ∀ move ∈ moves, move.LeavesTo consumer)
    : (q.afterAll moves).HeldFor (since ++ q.log moves) consumer := by
  induction moves generalizing q log since with
  | nil => simpa [Queue.log] using h
  | cons move moves ih =>
      have next := h.after balanced (leaves move List.mem_cons_self)
      simpa [Queue.afterAll, Queue.log]
        using ih next (balanced.after move) fun other member =>
          leaves other (List.mem_cons_of_mem _ member)

end Queue

end Broker

/-- Whatever a step of a job does at a queue leaves it to its consumer. -/
theorem Relay.Crew.leavesTo_of_moves {c : Relay.Crew} {b : Broker.State} {job : Relay.Job}
    {name : String} {move : Move} (member : move ∈ c.moves b job name) (consumer : Nat)
    : move.LeavesTo consumer := by
  cases stage : job.stage with
  | fresh =>
      cases decoded : Notification.decode job.delivery.body with
      | error e =>
          simp only [Relay.Crew.moves, stage, decoded, List.mem_ite_nil_right,
            List.mem_singleton] at member
          rw [member.2]
          trivial
      | ok n =>
          obtain ⟨body, rfl⟩ := Relay.Target.push_of_moves
            (by simpa [Relay.Crew.moves, stage, decoded] using member)
          trivial
  | relaying n => simp [Relay.Crew.moves, stage] at member
  | relayed | pausing =>
      simp only [Relay.Crew.moves, stage, List.mem_ite_nil_right, List.mem_singleton] at member
      rw [member.2]
      trivial

namespace Relay.Workplace

variable {w : Workplace} {name : String} {consumer : Nat} {notes : List Note}

-------------------------------------------------------------------------------
-- Runs and the log of a queue
-------------------------------------------------------------------------------

theorem log_cons (w : Workplace) (name : String) (act : WorkAct) (acts : List WorkAct)
    : w.log name (act :: acts)
      = (w.market.broker.queueOf name).log (w.moves name act) ++ (w.step act).log name acts := by
  rw [log, history, List.filterMap_append, happenings_notes, log]

theorem run_append (w : Workplace) (acts more : List WorkAct)
    : w.run (acts ++ more) = (w.run acts).run more :=
  List.foldl_append

/-- What is ready on a queue stands in line after any acts, by induction on the acts. -/
theorem inLine_run {log : List Happening} (h : (w.market.broker.queueOf name).InLine log)
    (balanced : (w.market.broker.queueOf name).Accounted log) (acts : List WorkAct)
    : ((w.run acts).market.broker.queueOf name).InLine (log ++ w.log name acts) := by
  induction acts generalizing w log with
  | nil => simpa [run, Workplace.log, history] using h
  | cons act acts ih =>
      have next := h.afterAll balanced (w.moves name act)
      have accounts := balanced.afterAll (w.moves name act)
      rw [← queueOf_step] at next accounts
      simpa [run, log_cons] using ih next accounts

/-- What is delivered in the course of acts was not gone before them, by induction on the acts. -/
theorem Sound.not_exit_of_delivered (h : w.Sound name notes) {acts : List WorkAct} {copy : Copy}
    (delivered : copy ∈ deliveries (w.log name acts))
    : copy ∉ (notes.filterMap Note.happening?).filterMap Happening.exit? := by
  induction acts generalizing w notes with
  | nil => cases delivered
  | cons act acts ih =>
      rw [log_cons, deliveries_append, List.mem_append] at delivered
      rcases delivered with now | later
      · exact h.accounted.not_exit_of_delivered now
      · intro gone
        refine ih (h.step act) later ?_
        rw [List.filterMap_append, List.filterMap_append]
        exact List.mem_append_left _ gone

-------------------------------------------------------------------------------
-- Acts that leave a queue to a consumer
-------------------------------------------------------------------------------

/-- Whether acts, one after the other, leave a queue to a consumer. -/
def Reserved (w : Workplace) (name : String) (consumer : Nat) : List WorkAct → Prop
  | [] => True
  | act :: acts =>
      (∀ move ∈ w.moves name act, move.LeavesTo consumer) ∧ (w.step act).Reserved name consumer acts

theorem reserved_append {acts more : List WorkAct}
    : w.Reserved name consumer (acts ++ more)
      ↔ w.Reserved name consumer acts ∧ (w.run acts).Reserved name consumer more := by
  induction acts generalizing w with
  | nil => simp [Reserved, run]
  | cons act acts ih => simp [Reserved, run, ih, and_assoc]

/-- The consumer holds all that is pending of what was delivered, by induction on the acts. -/
theorem Reserved.heldFor {acts : List WorkAct} (h : w.Reserved name consumer acts)
    (sound : w.Sound name notes) {since : List Happening}
    (held : (w.market.broker.queueOf name).HeldFor since consumer)
    : ((w.run acts).market.broker.queueOf name).HeldFor (since ++ w.log name acts) consumer := by
  induction acts generalizing w notes since with
  | nil => simpa [run, Workplace.log, history] using held
  | cons act acts ih =>
      have next := held.afterAll sound.accounted h.1
      rw [← queueOf_step] at next
      simpa [run, log_cons] using ih h.2 (sound.step act) next

-------------------------------------------------------------------------------
-- What becomes of what is taken
-------------------------------------------------------------------------------

/-- A notification was relayed under a tag, after the delivery of that tag was taken, and then the
delivery was acknowledged. -/
def AcknowledgedAfter (notes : List Note) (copy : Copy) (tag : Nat) (n : Notification) : Prop :=
  ∃ before later, notes = before ++ .happened (.acknowledged copy tag) :: later
    ∧ RelayedAfter before copy tag n

/-- What has become of a copy that is in nobody's hands any more. -/
inductive Cleared (w : Workplace) (name : String) (notes : List Note) (copy : Copy) : Prop where
  /-- It is gone, and its notification was relayed. -/
  | relayed {tag : Nat} {n : Notification} (decoded : Notification.decode copy.body = .ok n)
    (done : AcknowledgedAfter notes copy tag n) (gone : ¬(w.market.broker.queueOf name).Has copy)
  /-- It is gone, and it had no notification. -/
  | dropped {tag : Nat} {e : CodecError} (dropped : .happened (.dropped copy tag) ∈ notes)
    (garbled : Notification.decode copy.body = .error e)
    (gone : ¬(w.market.broker.queueOf name).Has copy)
  /-- It is ready again, and flagged. -/
  | returned {m : Message} (ready : m ∈ (w.market.broker.queueOf name).ready)
    (same : m.copy = copy) (flagged : m.redelivered)

/-- The step of a relayed job acknowledges what is pending under its tag. -/
theorem notes_acknowledge {job : Job} {crew : Crew} {now : Time.Turn} {p : Pending}
    (hand : job ∈ w.jobs) (stage : job.stage = .relayed) (queue : job.delivery.queue = name)
    (held : (w.market.broker.queueOf name).pending? job.delivery.tag = some p)
    : w.notes name (.work job crew now)
      = [.happened (.acknowledged p.copy job.delivery.tag)] := by
  subst queue
  simp [notes, dealings, moves, hand, Crew.dealings, Crew.moves, stage, Queue.happenings, held]

/-- The first step of a job whose delivery has no notification drops what is pending. -/
theorem notes_drop {job : Job} {crew : Crew} {now : Time.Turn} {p : Pending} {e : CodecError}
    (hand : job ∈ w.jobs) (stage : job.stage = .fresh) (queue : job.delivery.queue = name)
    (held : (w.market.broker.queueOf name).pending? job.delivery.tag = some p)
    (garbled : Notification.decode job.delivery.body = .error e)
    : w.notes name (.work job crew now) = [.happened (.dropped p.copy job.delivery.tag)] := by
  subst queue
  simp [notes, dealings, moves, hand, Crew.dealings, Crew.moves, stage, garbled,
    Queue.happenings, held]

/-- The body of what is pending under a job's tag is the one that the job decodes. -/
theorem Sound.body_eq (h : w.Sound name notes) {job : Job} {p : Pending} (hand : job ∈ w.jobs)
    (queue : job.delivery.queue = name)
    (held : (w.market.broker.queueOf name).pending? job.delivery.tag = some p)
    : p.copy.body = job.delivery.body := by
  obtain ⟨number, delivered⟩ := (h.fits job hand queue).taken
  rw [h.copy_eq delivered held]

/-- A copy that was taken and is gone was settled while it was held: the queue was not purged. -/
theorem Sound.cleared_of_gone (h : w.Sound name notes) {acts : List WorkAct} {copy : Copy}
    (reserved : w.Reserved name consumer acts)
    (gone : copy ∈ (w.log name acts).filterMap Happening.exit?)
    : (w.run acts).Cleared name (notes ++ w.history name acts) copy := by
  have away : ¬((w.run acts).market.broker.queueOf name).Has copy := by
    apply (h.run acts).not_has_of_exit
    rw [List.filterMap_append, List.filterMap_append]
    exact List.mem_append_right _ gone
  obtain ⟨earlier, act, later, rfl, -, ends⟩ := h.exists_ends acts gone
  have sound := h.run earlier
  rw [history_append, history]
  cases ends with
  | acknowledged hand stage queue held same decoded relayed unclosed =>
      rw [notes_acknowledge hand stage queue held, same]
      exact .relayed decoded ⟨_, _, (List.append_assoc notes _ _).symm, relayed⟩ away
  | @dropped job crew now p e hand stage queue held same garbled unacknowledged unpassed =>
      have body : Notification.decode job.delivery.body = .error e := by
        rw [← sound.body_eq hand queue held, same, garbled]
      rw [notes_drop hand stage queue held body, same]
      have noted : .happened (.dropped copy job.delivery.tag)
          ∈ notes ++ (w.history name earlier ++ ([.happened (.dropped copy job.delivery.tag)]
            ++ ((w.run earlier).step (.work job crew now)).history name later)) := by
        simp
      exact .dropped noted garbled away
  | @purged place c client connected queue ready =>
      have leaves := (reserved_append.mp reserved).2.1
      refine absurd (leaves .purge ?_) id
      simp [moves, Market.actMoves, Market.moves, client, connected, queue]

/-- A copy that the consumer took is cleared, as soon as the consumer holds nothing: what is neither
pending nor gone is ready, and flagged since it was delivered. -/
theorem Sound.cleared (h : w.Sound name notes) {acts : List WorkAct} {copy : Copy}
    (line : (w.market.broker.queueOf name).InLine (notes.filterMap Note.happening?))
    (reserved : w.Reserved name consumer acts)
    (nothing : ((w.run acts).market.broker.queueOf name).heldBy consumer = [])
    (taken : copy ∈ deliveries (w.log name acts))
    : (w.run acts).Cleared name (notes ++ w.history name acts) copy := by
  have accounted := (h.run acts).accounted
  have start : (w.market.broker.queueOf name).HeldFor [] consumer := fun _ _ delivered =>
    absurd delivered List.not_mem_nil
  have held := reserved.heldFor h start
  have line := inLine_run line h.accounted acts
  rw [List.filterMap_append] at accounted
  have known : copy ∈ deliveries (notes.filterMap Note.happening? ++ w.log name acts) := by
    rw [deliveries_append]
    exact List.mem_append_right _ taken
  have arrived := line.mem_arrivals known
  by_cases here : ((w.run acts).market.broker.queueOf name).Has copy
  · rcases here with ready | pending
    · obtain ⟨m, member, rfl⟩ := List.mem_map.mp ready
      exact .returned member rfl ((line.redelivered_iff accounted member).mpr known)
    · obtain ⟨p, member, rfl⟩ := List.mem_map.mp pending
      have owned := Queue.mem_heldBy_iff.mpr ⟨member, held p member taken⟩
      rw [nothing] at owned
      cases owned
  · refine h.cleared_of_gone reserved ?_
    have gone := not_not.mp (mt (accounted.has_iff arrived).mpr here)
    rw [List.filterMap_append, List.mem_append] at gone
    exact gone.resolve_left (h.not_exit_of_delivered taken)

end Relay.Workplace

end Almanac
