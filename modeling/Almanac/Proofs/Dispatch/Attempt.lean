import Almanac.Dispatch.Pass
import Almanac.Proofs.Store.Due

/-! A notify pass alone at a table, where publications and recordings may fail.
Due events are attempted in turn. Each attempt ends with the first step that fails.
-/

namespace Almanac.Dispatch

open Time Store Broker

-------------------------------------------------------------------------------
-- Runs with any outcomes
-------------------------------------------------------------------------------

/-- A question of a pass, with what it was answered. -/
abbrev Exchange :=
  (question : Ask) × question.Reply

namespace Exchange

def publication (payload : List UInt8) (reply : Except QueueError Unit) : Exchange :=
  ⟨.publish payload, reply⟩

def search (now : Instant) (reply : Except StoreError (List Event)) : Exchange :=
  ⟨.store (.due now), reply⟩

def recording (id : Uuid) (now : Instant) (reply : Except StoreError Nat) : Exchange :=
  ⟨.store (.mark [id] now), reply⟩

/-- The payload of a publication. -/
def payload? : Exchange → Option (List UInt8)
  | ⟨.publish payload, _⟩ => some payload
  | ⟨.store _, _⟩ => none

@[simp]
theorem payload?_publication (payload : List UInt8) (reply : Except QueueError Unit)
    : (publication payload reply).payload? = some payload := rfl

@[simp]
theorem payload?_search (now : Instant) (reply : Except StoreError (List Event))
    : (search now reply).payload? = none := rfl

@[simp]
theorem payload?_recording (id : Uuid) (now : Instant) (reply : Except StoreError Nat)
    : (recording id now reply).payload? = none := rfl

end Exchange

/-- A table where a pass is at work, and what the pass has asked there so far. -/
structure Trial where
  table : Table
  log : List Exchange

/-- How publications turn out and which recordings fail, by how much was asked before. -/
structure Outcomes where
  published : Nat → Except QueueError Unit
  fault? : Nat → Option StoreError

namespace Trial

/-- The reply to a question, with the table after it. A recording that fails changes nothing. -/
def reply (outcomes : Outcomes) (s : Trial) : (question : Ask) → question.Reply × Table
  | .publish _ => (outcomes.published s.log.length, s.table)
  | .store (.mark ids moment) =>
      match outcomes.fault? s.log.length with
      | some cause => (Except.error cause, s.table)
      | none => Table.answer .nil (.mark ids moment) s.table
  | .store c => Table.answer .nil c s.table

def answer (outcomes : Outcomes) (question : Ask) (s : Trial) : question.Reply × Trial :=
  let (reply, table) := s.reply outcomes question
  (reply, ⟨table, s.log ++ [⟨question, reply⟩]⟩)

/-- Runs a pass to its end. -/
def run {α : Type} (s : Trial) (outcomes : Outcomes) (p : Pass α)
    : Except SchedulerError α × Trial :=
  Process.run (answer outcomes) p s

/-- A pass that asks goes on with the reply. -/
theorem run_ask {α : Type} (s : Trial) (outcomes : Outcomes) (question : Ask)
    (next : question.Reply → Pass α)
    : s.run outcomes (.ask question next)
      = run ⟨(s.reply outcomes question).2, s.log ++ [⟨question, (s.reply outcomes question).1⟩]⟩
          outcomes (next (s.reply outcomes question).1) := rfl

end Trial

-------------------------------------------------------------------------------
-- Attempts at single events
-------------------------------------------------------------------------------

/-- An attempt at dispatching an event: what was asked, and why it failed if it did. -/
structure Attempt where
  event : Event
  log : List Exchange
  error? : Option DispatchError

namespace Attempt

/-- Whether an attempt took its steps in order and ended with the first one that failed. -/
inductive Orderly (now : Instant) : Attempt → Prop where
  | unwritten {e : Event} {cause : CodecError} (refused : e.notification.encode = .error cause)
    : Orderly now ⟨e, [], some (.encode cause)⟩
  | unpublished {e : Event} {payload : List UInt8} {cause : QueueError}
    (written : e.notification.encode = .ok payload)
    : Orderly now ⟨e, [.publication payload (.error cause)], some (.publish cause)⟩
  | unmarked {e : Event} {payload : List UInt8} {cause : StoreError}
    (written : e.notification.encode = .ok payload)
    : Orderly now
        ⟨e, [.publication payload (.ok ()), .recording e.id now (.error cause)], some (.mark cause)⟩
  | dispatched {e : Event} {payload : List UInt8} {count : Nat}
    (written : e.notification.encode = .ok payload)
    : Orderly now
        ⟨e, [.publication payload (.ok ()), .recording e.id now (.ok count)], none⟩

/-- The entry of a report for an attempt that failed. -/
def failure? (a : Attempt) : Option EventFailure :=
  a.error?.map (⟨a.event.id, ·⟩)

/-- The identifiers of the events that were dispatched. -/
def dispatched (attempts : List Attempt) : List Uuid :=
  (attempts.filter (·.error?.isNone)).map (·.event.id)

end Attempt

/-- A report with one more attempt. -/
def Report.note (report : Report) (a : Attempt) : Report :=
  match a.error? with
  | some error => report.fail a.event.id error
  | none => report.succeed

/-- What an attempt leaves behind. -/
def Trial.next (now : Instant) (s : Trial) (a : Attempt) : Trial :=
  ⟨if a.error?.isSome then s.table else (s.table.mark [a.event.id] now).2, s.log ++ a.log⟩

-------------------------------------------------------------------------------
-- One attempt, and all of them
-------------------------------------------------------------------------------

/-- The next event is attempted, whatever became of the ones before, and the others follow. -/
theorem run_dispatchAll_cons (outcomes : Outcomes) (now : Instant) (e : Event) (events : List Event)
    (report : Report) (s : Trial)
    : ∃ a : Attempt, a.event = e ∧ a.Orderly now
        ∧ s.run outcomes (dispatchAll now (e :: events) report)
          = (s.next now a).run outcomes (dispatchAll now events (report.note a)) := by
  cases written : e.notification.encode with
  | error cause =>
      refine ⟨⟨e, [], some (.encode cause)⟩, rfl, .unwritten written, ?_⟩
      simp [dispatchAll, written, Trial.next, Report.note]
  | ok payload =>
      cases published : outcomes.published s.log.length with
      | error cause =>
          refine ⟨⟨e, [.publication payload (.error cause)], some (.publish cause)⟩, rfl,
            .unpublished written, ?_⟩
          simp [dispatchAll, written, Trial.run_ask, Trial.reply, published, Trial.next,
            Report.note, Exchange.publication]
      | ok reply =>
          obtain rfl : () = reply := rfl
          cases fault : outcomes.fault? (s.log.length + 1) with
          | some cause =>
              refine ⟨⟨e, [.publication payload (.ok ()), .recording e.id now (.error cause)],
                some (.mark cause)⟩, rfl, .unmarked written, ?_⟩
              simp [dispatchAll, written, Trial.run_ask, Trial.reply, published, fault, Trial.next,
                Report.note, Exchange.publication, Exchange.recording, Call.Result]
          | none =>
              refine ⟨⟨e, [.publication payload (.ok ()),
                .recording e.id now (.ok (s.table.mark [e.id] now).1)], none⟩, rfl,
                .dispatched written, ?_⟩
              simp [dispatchAll, written, Trial.run_ask, Trial.reply, published, fault, Trial.next,
                Report.note, Exchange.publication, Exchange.recording, Call.Result, Table.answer,
                Table.changed]

/-- All events are attempted in turn, by induction on them. -/
theorem run_dispatchAll (outcomes : Outcomes) (now : Instant) (events : List Event)
    (report : Report) (s : Trial)
    : ∃ attempts : List Attempt, attempts.map Attempt.event = events
        ∧ (∀ a ∈ attempts, a.Orderly now)
        ∧ s.run outcomes (dispatchAll now events report)
          = (.ok (attempts.foldl Report.note report), attempts.foldl (Trial.next now) s) := by
  induction events generalizing report s with
  | nil => exact ⟨[], rfl, by simp, rfl⟩
  | cons e events ih =>
      obtain ⟨a, rfl, orderly, first⟩ := run_dispatchAll_cons outcomes now e events report s
      obtain ⟨attempts, rfl, all, rest⟩ := ih (report.note a) (s.next now a)
      exact ⟨a :: attempts, rfl, List.forall_mem_cons.mpr ⟨orderly, all⟩, first.trans rest⟩

theorem foldl_note (attempts : List Attempt) (report : Report)
    : attempts.foldl Report.note report
      = ⟨report.due, report.published + (Attempt.dispatched attempts).length,
          report.failures ++ attempts.filterMap Attempt.failure?⟩ := by
  induction attempts generalizing report with
  | nil => simp [Attempt.dispatched]
  | cons a attempts ih =>
      rw [List.foldl_cons, ih]
      cases error? : a.error? with
      | none =>
          simp [Report.note, Report.succeed, Attempt.failure?, Attempt.dispatched, error?]
          omega
      | some error =>
          simp [Report.note, Report.fail, Attempt.failure?, Attempt.dispatched, error?]

/-- Together attempts record the notifications of the events that were dispatched. -/
theorem foldl_next (now : Instant) (attempts : List Attempt) (s : Trial)
    : attempts.foldl (Trial.next now) s
      = ⟨(s.table.mark (Attempt.dispatched attempts) now).2,
          s.log ++ attempts.flatMap Attempt.log⟩ := by
  induction attempts generalizing s with
  | nil => simp [Attempt.dispatched, Table.mark]
  | cons a attempts ih =>
      rw [List.foldl_cons, ih]
      cases error? : a.error? with
      | none => simp [Trial.next, Attempt.dispatched, error?, ← Table.mark_cons]
      | some error => simp [Trial.next, Attempt.dispatched, error?]

/-- A whole pass: it looks for due events and attempts each of them. -/
theorem run_notifyDue (outcomes : Outcomes) (now : Instant) (t : Table)
    : ∃ attempts : List Attempt, attempts.map Attempt.event = t.due now
        ∧ (∀ a ∈ attempts, a.Orderly now)
        ∧ Trial.run ⟨t, []⟩ outcomes (notifyDue now)
          = (.ok ⟨(t.due now).length, (Attempt.dispatched attempts).length,
                attempts.filterMap Attempt.failure?⟩,
              ⟨(t.mark (Attempt.dispatched attempts) now).2,
                .search now (.ok (t.due now)) :: attempts.flatMap Attempt.log⟩) := by
  obtain ⟨attempts, inOrder, orderly, ends⟩ := run_dispatchAll outcomes now (t.due now)
    (.start (t.due now).length) ⟨t, [.search now (.ok (t.due now))]⟩
  refine ⟨attempts, inOrder, orderly, ?_⟩
  rw [foldl_note, foldl_next] at ends
  refine (Trial.run_ask ⟨t, []⟩ outcomes (.store (.due now)) _).trans (ends.trans ?_)
  simp [Report.start]

-------------------------------------------------------------------------------
-- What the attempts come to
-------------------------------------------------------------------------------

variable {t : Table} {now : Instant} {attempts : List Attempt}

/-- The events that were dispatched were due, and their notifications could be written. -/
theorem ready_dispatched (inOrder : attempts.map Attempt.event = t.due now)
    (orderly : ∀ a ∈ attempts, a.Orderly now)
    : t.Ready now (Attempt.dispatched attempts) := by
  intro id listed
  obtain ⟨a, member, rfl⟩ := List.mem_map.mp listed
  obtain ⟨member, succeeded⟩ := List.mem_filter.mp member
  refine ⟨a.event, inOrder ▸ List.mem_map_of_mem member, rfl, ?_⟩
  cases orderly a member with
  | dispatched written => exact ⟨_, written⟩
  | _ => cases succeeded

theorem mem_dispatched {a : Attempt} (member : a ∈ attempts) (succeeded : a.error? = none)
    : a.event.id ∈ Attempt.dispatched attempts :=
  List.mem_map.mpr ⟨a, List.mem_filter.mpr ⟨member, by simp [succeeded]⟩, rfl⟩

theorem error?_of_mem_dispatched (distinct : ((attempts.map Attempt.event).map Event.id).Nodup)
    {a : Attempt} (member : a ∈ attempts) (listed : a.event.id ∈ Attempt.dispatched attempts)
    : a.error? = none := by
  obtain ⟨other, succeeded, same⟩ := List.mem_map.mp listed
  obtain ⟨member', succeeded⟩ := List.mem_filter.mp succeeded
  rw [List.map_map] at distinct
  obtain rfl := List.inj_on_of_nodup_map distinct member' member same
  simpa using succeeded

/-- What is still due after all attempts are the events that were not dispatched. -/
theorem due_attempts (stored : t.Stored) (inOrder : attempts.map Attempt.event = t.due now)
    (orderly : ∀ a ∈ attempts, a.Orderly now)
    : (t.mark (Attempt.dispatched attempts) now).2.due now
      = (attempts.filter (·.error?.isSome)).map Attempt.event := by
  have distinct := stored.kept.nodup_due now
  rw [stored.due_mark (ready_dispatched inOrder orderly), ← inOrder, List.filter_map]
  rw [← inOrder] at distinct
  refine congrArg (List.map _) (List.filter_congr ?_)
  intro a member
  cases error? : a.error? with
  | none => simpa [error?] using mem_dispatched member error?
  | some error =>
      have apart : a.event.id ∉ Attempt.dispatched attempts := by
        intro listed
        have none := error?_of_mem_dispatched distinct member listed
        rw [error?] at none
        cases none
      simpa [error?] using apart

end Almanac.Dispatch
