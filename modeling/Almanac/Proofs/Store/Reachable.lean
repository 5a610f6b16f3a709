import Almanac.Proofs.Store.Transition
import Almanac.Proofs.Time.Truncation

/-! The tables that calls bring about from the empty one, and how these keep their events. -/

namespace Almanac

open Time Store

namespace Event

/-- An event that a store can keep: in whole microseconds, with a representable instant of
notification. -/
structure IsStorable (e : Event) : Prop where
  normal : e.normalize = e
  notifiable : e.notifyAt?.isSome

variable {e : Event}

/-- What was prepared can be stored: it is normalised, and its notification is in range, or it
would have been refused. -/
theorem isStorable_of_prepare {new : Event} (prepared : prepare new = .ok e) : e.IsStorable := by
  obtain rfl := Table.of_prepare prepared
  refine ⟨new.normalize_normalize, ?_⟩
  cases reached : new.normalize.notifyAt? with
  | none => simp [prepare, reached] at prepared
  | some t => rfl

theorem IsStorable.whole (h : e.IsStorable) : e.notified.map Instant.truncate = e.notified :=
  congrArg Event.notified h.normal

/-- An event stays storable under another identifier, owner and mark. -/
theorem IsStorable.relabel (h : e.IsStorable) (id owner : Uuid) {notified : Option Instant}
    (whole : notified.map Instant.truncate = notified)
    : IsStorable { e with id, owner, notified } where
  normal := by
    have start : e.start.truncate = e.start := congrArg Event.start h.normal
    have finish : e.finish.truncate = e.finish := congrArg Event.finish h.normal
    have lead : e.lead.truncate = e.lead := congrArg Event.lead h.normal
    simp [normalize, start, finish, lead, whole]
  notifiable := h.notifiable

/-- A mark cut to microseconds keeps an event storable, since nothing else changes. -/
theorem IsStorable.advance (h : e.IsStorable) (moment : Instant)
    : (Table.advance moment.truncate e).IsStorable := by
  unfold Table.advance
  split
  · exact h.relabel e.id e.owner (by simp)
  · exact h

end Event

namespace Store.Table

variable {t : Table} {fresh id : Uuid} {c : Call} {e : Event}

/-- A table after a call that comes with an identifier for a new event. A call that would need the
identifier is passed over when it is in use. -/
def afterCall (t : Table) (call : Uuid × Call) : Table :=
  if t.accepts call.1 call.2 then (Table.answer call.1 call.2 t).2 else t

/-- A table after calls in turn. -/
def after (t : Table) (calls : List (Uuid × Call)) : Table :=
  calls.foldl afterCall t

/-- Whether calls bring about a table from the empty one. -/
def Reachable (t : Table) : Prop :=
  ∃ calls, empty.after calls = t

/-- A table of storable events, each under an identifier of its own. -/
structure Stored (t : Table) : Prop where
  kept : t.Kept
  storable : ∀ {id e}, t.find? id = some e → e.IsStorable

/-- Every call leaves storable events, by cases on what it makes of the record of each. -/
theorem Stored.answer (h : t.Stored) (accepted : t.accepts fresh c)
    : (Table.answer fresh c t).2.Stored := by
  refine ⟨h.kept.answer accepted, ?_⟩
  intro id e found
  have turns := h.kept.turns accepted id
  rw [found] at turns
  generalize before : t.find? id = record at turns
  cases turns with
  | stays => exact h.storable before
  | filed prepared issued =>
      have storable := Event.isStorable_of_prepare prepared
      exact storable.relabel fresh _ storable.whole
  | rewritten prepared same =>
      have storable := Event.isStorable_of_prepare prepared
      exact storable.relabel _ _ storable.whole
  | marked listed => exact (h.storable before).advance _

theorem Stored.mark (h : t.Stored) (ids : List Uuid) (moment : Instant)
    : (t.mark ids moment).2.Stored := by
  have answered : (Table.answer .nil (.mark ids moment) t).2.Stored := h.answer rfl
  exact answered

/-- One call leaves a stored table stored, accepted or not. -/
theorem Stored.afterCall (h : t.Stored) (call : Uuid × Call) : (t.afterCall call).Stored := by
  unfold Table.afterCall
  split
  · rename_i accepted
    exact h.answer accepted
  · exact h

/-- Storable events are left by any calls, by induction on them. -/
theorem Stored.after (h : t.Stored) (calls : List (Uuid × Call)) : (t.after calls).Stored := by
  induction calls generalizing t with
  | nil => exact h
  | cons call calls ih => exact ih (h.afterCall call)

/-- Every reachable table is stored, since the empty one is and every call keeps it so. -/
theorem Reachable.stored (h : t.Reachable) : t.Stored := by
  obtain ⟨calls, rfl⟩ := h
  have none : empty.Stored := ⟨.empty, fun found => by cases found⟩
  exact none.after calls

end Store.Table

end Almanac
