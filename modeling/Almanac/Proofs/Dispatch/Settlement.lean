import Almanac.Proofs.Dispatch.Attempt
import Almanac.Proofs.Store.Bureau

/-! An event that was dispatched is not due again, as long as no one updates it. -/

namespace Almanac

open Time Store

-------------------------------------------------------------------------------
-- What stays settled
-------------------------------------------------------------------------------

namespace Store

variable {t : Table} {fresh id : Uuid} {c : Call}

/-- Whether a call writes the record of an identifier anew. -/
def Call.Rewrites (fresh id : Uuid) : Call → Prop
  | .add new => fresh = id ∧ (prepare new).isOk
  | .update new => new.id = id ∧ (prepare new).isOk
  | _ => False

namespace Table

/-- Whether the event of an identifier is settled, if there is one. -/
def Settled (t : Table) (id : Uuid) : Prop :=
  ∀ e, t.find? id = some e → e.IsSettled

theorem Settled.not_due (h : t.Settled id) (kept : t.Kept) (now : Instant)
    : ∀ e ∈ t.due now, e.id ≠ id := by
  rintro e member rfl
  obtain ⟨present, due⟩ := mem_due.mp member
  exact (h e (kept.find?_eq_some_iff.mpr ⟨present, rfl⟩)).not_isDue now due

/-- An event stays settled until it is written anew, by cases on what a call makes of it. -/
theorem Settled.answer (h : t.Settled id) (kept : t.Kept) (accepted : t.accepts fresh c)
    (calm : ¬c.Rewrites fresh id)
    : (Table.answer fresh c t).2.Settled id := by
  intro e found
  have turns := kept.turns accepted id
  rw [found] at turns
  generalize before : t.find? id = record at turns
  cases turns with
  | stays => exact h e before
  | filed prepared issued =>
      exact absurd ⟨issued.symm, by simp [prepared, Except.isOk, Except.toBool]⟩ calm
  | rewritten prepared same =>
      exact absurd ⟨same.symm, by simp [prepared, Except.isOk, Except.toBool]⟩ calm
  | marked listed => exact (h _ before).advance _

theorem Settled.after (h : t.Settled id) (stored : t.Stored) (calls : List (Uuid × Call))
    (calm : ∀ call ∈ calls, ¬call.2.Rewrites call.1 id)
    : (t.after calls).Settled id := by
  -- The calls may come from anyone, marks at other moments included.
  induction calls generalizing t with
  | nil => exact h
  | cons call calls ih =>
      obtain ⟨first, rest⟩ := List.forall_mem_cons.mp calm
      refine ih ?_ (stored.afterCall call) rest
      unfold Table.afterCall
      split
      · rename_i accepted
        exact h.answer stored.kept accepted first
      · exact h

end Table

end Store

-------------------------------------------------------------------------------
-- After a pass
-------------------------------------------------------------------------------

namespace Dispatch

variable {t : Table} {now : Instant} {report : Report} {ending : Trial}

/-- What a pass with its report has settled of the events that were due at a table. -/
structure Settles (t : Table) (now : Instant) (report : Report) (ending : Trial) : Prop where
  /-- An event without a failure is due at no instant, as long as it is not written anew. -/
  forGood
    : ∀ e ∈ t.due now, e.id ∉ report.failures.map EventFailure.event →
        ∀ calls : List (Uuid × Call), (∀ call ∈ calls, ¬call.2.Rewrites call.1 e.id) →
        ∀ later, ∀ other ∈ (ending.table.after calls).due later, other.id ≠ e.id
  /-- Without any failure, the same pass finds nothing to do right after. -/
  again
    : report.failures = [] → ∀ outcomes,
        (Trial.run ⟨ending.table, []⟩ outcomes (notifyDue now)).1 = .ok ⟨0, 0, []⟩

theorem run_notifyDue_of_nil (none : t.due now = []) (outcomes : Outcomes)
    : (Trial.run ⟨t, []⟩ outcomes (notifyDue now)).1 = .ok ⟨0, 0, []⟩ := by
  obtain ⟨attempts, inOrder, -, ends⟩ := run_notifyDue outcomes now t
  rw [none] at inOrder
  obtain rfl := List.map_eq_nil_iff.mp inOrder
  rw [ends, none]
  rfl

theorem error?_of_no_failure {attempts : List Attempt} {a : Attempt} (member : a ∈ attempts)
    (unfailed : a.event.id ∉ (attempts.filterMap Attempt.failure?).map EventFailure.event)
    : a.error? = none := by
  cases error? : a.error? with
  | none => rfl
  | some error =>
      have failed : ⟨a.event.id, error⟩ ∈ attempts.filterMap Attempt.failure? :=
        List.mem_filterMap.mpr ⟨a, member, by simp [Attempt.failure?, error?]⟩
      exact absurd (List.mem_map_of_mem failed) unfailed

/-- A pass settles the events that it dispatches, whatever the precision of its moment. -/
theorem settles_notifyDue (reachable : t.Reachable) (now : Instant) (outcomes : Outcomes)
    : ∃ report ending, Trial.run ⟨t, []⟩ outcomes (notifyDue now) = (.ok report, ending)
        ∧ Settles t now report ending := by
  have stored := reachable.stored
  obtain ⟨attempts, inOrder, orderly, ends⟩ := run_notifyDue outcomes now t
  refine ⟨_, _, ends, ?_⟩
  constructor
  case forGood =>
    intro e due unfailed calls calm later
    rw [← inOrder] at due
    obtain ⟨a, member, rfl⟩ := List.mem_map.mp due
    have listed := mem_dispatched member (error?_of_no_failure member unfailed)
    have settled : (t.mark (Attempt.dispatched attempts) now).2.Settled a.event.id :=
      fun e found => stored.settled_mark (ready_dispatched inOrder orderly) found listed
    have after := stored.mark (Attempt.dispatched attempts) now
    exact (settled.after after calls calm).not_due (after.after calls).kept later
  case again =>
    intro (complete : attempts.filterMap Attempt.failure? = [])
    apply run_notifyDue_of_nil
    rw [due_attempts stored inOrder orderly, List.map_eq_nil_iff, List.filter_eq_nil_iff]
    intro a member
    have succeeded := error?_of_no_failure member (by rw [complete]; exact List.not_mem_nil)
    simp [succeeded]

/-- A little after noon, between two microseconds. -/
def afterNoon : Instant :=
  { Bureau.noon with nano := 123456789, nano_range := by omega }

/-- A meeting that starts at the microsecond before. -/
def startingSoon : Table :=
  Table.empty.after [(⟨10⟩, .add { Bureau.meeting with start := afterNoon.truncate })]

theorem settles_notifyDue_startingSoon
    : startingSoon.Reachable
        ∧ ∃ report ending,
            Trial.run ⟨startingSoon, []⟩ ⟨fun _ => .ok (), fun _ => none⟩ (notifyDue afterNoon)
              = (.ok report, ending)
            ∧ Settles startingSoon afterNoon report ending :=
  ⟨⟨_, rfl⟩, settles_notifyDue ⟨_, rfl⟩ afterNoon _⟩

end Dispatch

end Almanac
