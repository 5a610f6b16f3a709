import Almanac.Proofs.Store.Integrity

/-! The precision of stored events, and which of them can be notified of.
Everything is kept in whole microseconds, except for leads that have more of them than a word holds.
Those are kept whole, and no notification with such a lead can be written.
-/

namespace Almanac

open Time Store

namespace Event

/-- An event that its owner can be notified of: in whole microseconds, with a representable instant
of notification and a notification that can be written. -/
structure IsDispatchable (e : Event) : Prop where
  start : e.start.IsWhole
  finish : e.finish.IsWhole
  lead : e.lead.nanos % 1000 = 0
  notified : ∀ moment, e.notified = some moment → moment.IsWhole
  notifiable : e.notifyAt?.isSome
  written : ∃ payload, e.notification.encode = .ok payload

variable {e : Event}

theorem IsStorable.isWhole_start (h : e.IsStorable) : e.start.IsWhole :=
  Instant.isWhole_of_truncate_eq (congrArg Event.start h.normal)

theorem IsStorable.isWhole_finish (h : e.IsStorable) : e.finish.IsWhole :=
  Instant.isWhole_of_truncate_eq (congrArg Event.finish h.normal)

theorem IsStorable.isWhole_notified (h : e.IsStorable) {moment : Instant}
    (marked : e.notified = some moment)
    : moment.IsWhole := by
  have whole := h.whole
  rw [marked] at whole
  exact Instant.isWhole_of_truncate_eq (Option.some.inj whole)

/-- The lead alone decides whether a stored event is dispatchable. -/
theorem IsStorable.isDispatchable_iff (h : e.IsStorable)
    : e.IsDispatchable ↔ Span.fitsWord e.lead.wholeMicros := by
  have writable := e.notification.exists_encode_iff
  constructor
  · exact fun dispatchable => writable.mp dispatchable.written
  · intro fits
    refine ⟨h.isWhole_start, h.isWhole_finish, ?_, fun _ => h.isWhole_notified, h.notifiable,
      writable.mpr fits⟩
    have lead : e.lead.truncate = e.lead := congrArg Event.lead h.normal
    exact Span.nanos_emod_of_micros? lead (by simp [Span.micros?, fits])

end Event

namespace Store.Table

variable {t : Table} {id : Uuid} {e new : Event} {act : Use}

-------------------------------------------------------------------------------
-- One use
-------------------------------------------------------------------------------

/-- A use that puts an event on record. -/
inductive Writes (t : Table) : Use → Event → Prop where
  | added {drawn : List Uuid} {e stored : Event} {after : Table}
    (replied : t.reply? drawn (.add e) = some (.ok stored, after))
    : Writes t (.call drawn (.add e)) e
  | updated {drawn : List Uuid} {e : Event} {after : Table}
    (replied : t.reply? drawn (.update e) = some (.ok (), after))
    : Writes t (.call drawn (.update e)) e

/-- What is written is on record with its lead cut. -/
theorem Writes.exists_lead (writes : t.Writes act new) (stored : t.Stored)
    : ∃ id e, (t.use act).find? id = some e ∧ e.lead = new.lead.truncate := by
  cases writes with
  | @added drawn _ filed _ replied =>
      refine ⟨filed.id, filed, ?_, ?_⟩
      · rw [use_call replied, (stored.filed replied).2, if_pos rfl]
      · rw [(of_reply?_add replied).2.1]
        rfl
  | updated replied =>
      obtain ⟨old, -, found⟩ := rewritten replied
      refine ⟨new.id, { new.normalize with owner := old.owner }, ?_, rfl⟩
      rw [use_call replied, found, if_pos rfl]

theorem lead_advance (moment : Instant) (e : Event) : (advance moment e).lead = e.lead := by
  unfold advance
  split <;> rfl

/-- The lead of a record is that of the record before, or it was written and cut. -/
theorem Stored.lead_use (h : t.Stored) (later : (t.use act).find? id = some e)
    : (∃ old, t.find? id = some old ∧ e.lead = old.lead)
      ∨ ∃ new, t.Writes act new ∧ e.lead = new.lead.truncate := by
  cases act with
  | clear => cases later
  | call drawn c =>
      cases replied : t.reply? drawn c with
      | none =>
          rw [Table.use, replied] at later
          exact .inl ⟨e, later, rfl⟩
      | some result =>
          obtain ⟨answer, after⟩ := result
          rw [use_call replied] at later
          rcases of_reply? replied with ⟨fresh, accepted, eq⟩ | ⟨-, rfl⟩
          · have turns := h.kept.turns accepted id
            rw [eq, later] at turns
            generalize before : t.find? id = record at turns
            cases turns with
            | stays => exact .inl ⟨e, rfl, rfl⟩
            | filed prepared issued =>
                rw [answer_add_of_ok prepared] at eq
                cases eq
                exact .inr ⟨_, .added replied, by rw [of_prepare prepared]; rfl⟩
            | @rewritten new stored old prepared same =>
                obtain rfl := of_prepare prepared
                have found : t.find? new.normalize.id = some old := same ▸ before
                rw [answer_update_of_ok prepared found] at eq
                cases eq
                exact .inr ⟨_, .updated replied, rfl⟩
            | marked listed old => exact .inl ⟨old, rfl, lead_advance _ old⟩
          · exact .inl ⟨e, later, rfl⟩

-------------------------------------------------------------------------------
-- Whole runs
-------------------------------------------------------------------------------

/-- Whether owners can be notified of every event on record. -/
def Dispatchable (t : Table) : Prop :=
  ∀ id e, t.find? id = some e → e.IsDispatchable

/-- Every lead on record fits a word as long as only such leads are written, by induction on the
uses. -/
theorem Stored.fits_through (h : t.Stored) (uses : List Use)
    (fits : ∀ id e, t.find? id = some e → Span.fitsWord e.lead.wholeMicros)
    (short
      : ∀ earlier act later, uses = earlier ++ act :: later →
          ∀ e, (t.through earlier).Writes act e → Span.fitsWord e.lead.wholeMicros)
    : ∀ id e, (t.through uses).find? id = some e → Span.fitsWord e.lead.wholeMicros := by
  induction uses generalizing t with
  | nil => exact fits
  | cons act uses ih =>
      refine ih (h.use act) ?_ fun earlier other later split =>
        short (act :: earlier) other later (by rw [split]; rfl)
      intro id e found
      rcases h.lead_use found with ⟨old, before, same⟩ | ⟨new, writes, same⟩
      · exact same ▸ fits id old before
      · rw [same, Span.wholeMicros_truncate]
        exact short [] act uses rfl new writes

/-- Whatever is done at a store, the instants on record are in whole microseconds and those of
notifications are representable. Owners can be notified of every event, in the course of uses, just
when every lead that is written fits a word in microseconds. -/
theorem dispatchable_iff (uses : List Use)
    : (∀ id e, (empty.through uses).find? id = some e →
        e.start.IsWhole ∧ e.finish.IsWhole ∧ (∀ moment, e.notified = some moment → moment.IsWhole)
        ∧ e.notifyAt?.isSome ∧ (e.IsDispatchable ↔ Span.fitsWord e.lead.wholeMicros))
      ∧ ((∀ part rest, uses = part ++ rest → (empty.through part).Dispatchable)
        ↔ ∀ earlier act later, uses = earlier ++ act :: later →
            ∀ e, (empty.through earlier).Writes act e → Span.fitsWord e.lead.wholeMicros) := by
  have stored (part : List Use) : (empty.through part).Stored := Stored.empty.through part
  refine ⟨fun id e found => ?_, ?_, ?_⟩
  · have storable := (stored uses).storable found
    exact ⟨storable.isWhole_start, storable.isWhole_finish, fun _ => storable.isWhole_notified,
      storable.notifiable, storable.isDispatchable_iff⟩
  · intro dispatchable earlier act later split new writes
    obtain ⟨id, e, found, lead⟩ := writes.exists_lead (stored earlier)
    rw [← through_concat] at found
    have fits := (dispatchable (earlier ++ [act]) later (by simp [split]) id e found).written
    rwa [e.notification.exists_encode_iff, show e.notification.lead = e.lead from rfl, lead,
      Span.wholeMicros_truncate] at fits
  · rintro short part rest rfl id e found
    have fits := Stored.empty.fits_through part (fun _ _ found => by cases found)
      (fun earlier act later split => short earlier act (later ++ rest) (by simp [split]))
    exact ((stored part).storable found).isDispatchable_iff.mpr (fits id e found)

-------------------------------------------------------------------------------
-- A lead that is kept whole
-------------------------------------------------------------------------------

/-- An event on the last day that there is, with a lead of ten trillion seconds and a nanosecond. -/
def lastDay : Event :=
  { id := .nil
    owner := .nil
    title := "last day"
    description := ""
    start := .ofParts 8210266790400 0 (by omega)
    finish := .ofParts 8210266790400 0 (by omega)
    lead := ⟨10000000000000000000001, by omega⟩
    notified := none }

/-- A store accepts the event of the last day, but no one can be notified of it. -/
theorem not_dispatchable_lastDay
    : ¬Dispatchable (empty.through [.call [⟨1⟩] (.add lastDay)]) := by
  intro dispatchable
  have found : (empty.through [.call [⟨1⟩] (.add lastDay)]).find? ⟨1⟩
      = some { lastDay with id := ⟨1⟩ } := by decide +kernel
  have whole := (dispatchable _ _ found).lead
  exact absurd whole (by decide)

end Store.Table

end Almanac
