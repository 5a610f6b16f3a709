import Almanac.Proofs.Dispatch.Attempt
import Almanac.Proofs.Store.Bureau

/-! What a notify pass accounts for: its report, what it publishes and what becomes of the table. -/

namespace Almanac.Dispatch

open Time Store Broker

variable {t : Table} {now : Instant} {report : Report} {attempts : List Attempt} {ending : Trial}

/-- How a pass and its report stand to the table where the pass begins, and to the attempts that it
makes. -/
structure Accounts (t : Table) (now : Instant) (report : Report) (attempts : List Attempt)
    (ending : Trial) : Prop where
  /-- Each due event is attempted once, in order. -/
  inOrder : attempts.map Attempt.event = t.due now
  once : ((t.due now).map Event.id).Nodup
  orderly : ∀ a ∈ attempts, a.Orderly now
  asked : ending.log = .search now (.ok (t.due now)) :: attempts.flatMap Attempt.log
  /-- The notifications that can be written are published, each once and no others. -/
  publications
    : ending.log.filterMap Exchange.payload?
      = (t.due now).filterMap fun e => e.notification.encode.toOption
  due : report.due = (t.due now).length
  balance : report.due = report.published + report.failures.length
  failures : report.failures = attempts.filterMap Attempt.failure?
  /-- The marks of the events that were dispatched are set, and nothing else has changed. -/
  changed
    : ending.table.events
      = t.events.map fun e =>
          if e.id ∈ Attempt.dispatched attempts then { e with notified := some now.truncate } else e
  /-- What is still due are the other events, as they were. -/
  remaining
    : ending.table.due now = (attempts.filter (·.error?.isSome)).map Attempt.event

/-- An attempt publishes its notification when that can be written. -/
theorem Attempt.Orderly.publications {a : Attempt} (orderly : a.Orderly now)
    : a.log.filterMap Exchange.payload? = a.event.notification.encode.toOption.toList := by
  cases orderly with
  | unwritten refused => simp [refused, Except.toOption]
  | unpublished written => simp [written, Except.toOption]
  | unmarked written => simp [written, Except.toOption]
  | dispatched written => simp [written, Except.toOption]

theorem publications_attempts (orderly : ∀ a ∈ attempts, a.Orderly now)
    : (attempts.flatMap Attempt.log).filterMap Exchange.payload?
      = (attempts.map Attempt.event).filterMap fun e => e.notification.encode.toOption := by
  induction attempts with
  | nil => rfl
  | cons a attempts ih =>
      obtain ⟨first, rest⟩ := List.forall_mem_cons.mp orderly
      rw [List.flatMap_cons, List.filterMap_append, first.publications, ih rest, List.map_cons]
      cases written : a.event.notification.encode <;> simp [written, Except.toOption]

/-- Every attempt succeeds or fails. -/
theorem length_attempts (attempts : List Attempt)
    : attempts.length
      = (Attempt.dispatched attempts).length + (attempts.filterMap Attempt.failure?).length := by
  induction attempts with
  | nil => rfl
  | cons a attempts ih =>
      cases error? : a.error? <;>
        simp [Attempt.dispatched, Attempt.failure?, error?] at ih ⊢ <;> omega

/-- A notify pass accounts for every event that is due, whatever comes of its publications and
recordings. -/
theorem accounts_notifyDue (reachable : t.Reachable) (now : Instant) (outcomes : Outcomes)
    : ∃ report attempts ending, Trial.run ⟨t, []⟩ outcomes (notifyDue now) = (.ok report, ending)
        ∧ Accounts t now report attempts ending := by
  have stored := reachable.stored
  obtain ⟨attempts, inOrder, orderly, ends⟩ := run_notifyDue outcomes now t
  refine ⟨_, attempts, _, ends, ?_⟩
  constructor
  case inOrder => exact inOrder
  case once => exact stored.kept.nodup_due now
  case orderly => exact orderly
  case asked => rfl
  case publications =>
    rw [← inOrder]
    exact publications_attempts orderly
  case due => rfl
  case balance =>
    rw [← inOrder, List.length_map]
    exact length_attempts attempts
  case failures => rfl
  case changed => exact stored.events_mark (ready_dispatched inOrder orderly)
  case remaining => exact due_attempts stored inOrder orderly

/-- A table with three meetings, of which the last has a lead that is too long to be written. -/
def agenda : Table :=
  Table.empty.after
    [(⟨10⟩, .add Bureau.meeting), (⟨11⟩, .add Bureau.meeting),
      (⟨12⟩, .add
        { Bureau.meeting with
          start := Instant.latest
          lead := ⟨9223372036854775808000, by omega⟩ })]

/-- An outage in which the first publication fails. -/
def outage : Outcomes where
  published asked := if asked = 1 then .error (.publish "refused") else .ok ()
  fault? _ := none

theorem accounts_notifyDue_agenda
    : agenda.Reachable
        ∧ ∃ report attempts ending,
            Trial.run ⟨agenda, []⟩ outage (notifyDue Bureau.noon) = (.ok report, ending)
              ∧ Accounts agenda Bureau.noon report attempts ending :=
  ⟨⟨_, rfl⟩, accounts_notifyDue ⟨_, rfl⟩ Bureau.noon outage⟩

end Almanac.Dispatch
