import Almanac.Event
import Almanac.Proofs.Time.Nanoseconds

/-! When events are due, in exact arithmetic.
The instant of a notification is moved to the nearer end of the instants when it lies outside. The
early end serves as well as any instant before it. The late end is an instant that comes, and so an
event is due there whose notification lies after every instant.
-/

namespace Almanac

open Time

namespace Time.Instant

theorem earliest_le (t : Instant) : earliest ≤ t := by
  have seconds := t.second_range
  rw [le_iff]
  simp only [earliest]
  omega

end Time.Instant

namespace Event

variable {e : Event} {now : Instant}

-------------------------------------------------------------------------------
-- Exact arithmetic
-------------------------------------------------------------------------------

/-- The nanoseconds from the start of 1970 to the notification of an event, as its start counts
them, whether or not there is such an instant. -/
def notifyCount (e : Event) : Int :=
  e.start.toNanos - e.lead.nanos

/-- Whether the notification of an event has come, and none was recorded at or after it, in counts
of nanoseconds. -/
def IsDueExactly (e : Event) (now : Instant) : Prop :=
  e.notifyCount ≤ e.start.count now
    ∧ ∀ mark, e.notified = some mark → e.start.count mark < e.notifyCount

/-- Whether the notification of an event lies after every instant. -/
def FallsAfterAll (e : Event) : Prop :=
  ∀ t, e.start.count t < e.notifyCount

/-- Whether the notification of an event lies before every instant. -/
def FallsBeforeAll (e : Event) : Prop :=
  ∀ t, e.notifyCount < e.start.count t

theorem FallsAfterAll.not_isDueExactly (late : e.FallsAfterAll) (now : Instant)
    : ¬e.IsDueExactly now :=
  fun due => absurd (late now) (Int.not_lt.mpr due.1)

theorem FallsBeforeAll.isDueExactly_iff (early : e.FallsBeforeAll) (now : Instant)
    : e.IsDueExactly now ↔ e.notified = none := by
  constructor
  · intro due
    rw [Option.eq_none_iff_forall_ne_some]
    intro mark marked
    exact absurd (early mark) (Int.lt_asymm (due.2 mark marked))
  · intro unmarked
    exact ⟨Int.le_of_lt (early now), fun mark marked => by simp [unmarked] at marked⟩

-------------------------------------------------------------------------------
-- The instant of the notification
-------------------------------------------------------------------------------

/-- An event without an instant of notification has its notification past either end. -/
theorem notifyAt?_eq_none_iff : e.notifyAt? = none ↔ e.FallsBeforeAll ∨ e.FallsAfterAll :=
  Instant.shift?_eq_none_iff

/-- The instant of a notification is exact when there is one. -/
theorem count_notifyAt (notifiable : e.notifyAt?.isSome)
    : e.start.Counts e.notifyAt ∧ e.start.count e.notifyAt = e.notifyCount := by
  obtain ⟨moment, reached⟩ := Option.isSome_iff_exists.mp notifiable
  rw [notifyAt, reached, Option.getD_some]
  exact Instant.of_shift? reached

/-- A notification before every instant has a positive lead. -/
theorem FallsBeforeAll.notifyAt_eq (early : e.FallsBeforeAll) : e.notifyAt = .earliest := by
  have lead : 0 < e.lead.nanos := by
    have before := early e.start
    rw [Instant.count_self, notifyCount] at before
    omega
  rw [notifyAt, notifyAt?_eq_none_iff.mpr (.inl early), Option.getD_none, if_pos lead]

/-- One after every instant has a negative lead. -/
theorem FallsAfterAll.notifyAt_eq (late : e.FallsAfterAll) : e.notifyAt = .latest := by
  have lead : ¬0 < e.lead.nanos := by
    have after := late e.start
    rw [Instant.count_self, notifyCount] at after
    omega
  rw [notifyAt, notifyAt?_eq_none_iff.mpr (.inr late), Option.getD_none, if_neg lead]

-------------------------------------------------------------------------------
-- Due events
-------------------------------------------------------------------------------

theorem isDue_iff_le_and_lt
    : e.isDue now ↔ e.notifyAt ≤ now ∧ ∀ mark, e.notified = some mark → mark < e.notifyAt := by
  unfold isDue
  cases e.notified <;> simp

/-- An event with an instant of notification is due when it is so exactly. -/
theorem isDue_iff_isDueExactly (notifiable : e.notifyAt?.isSome)
    : e.isDue now ↔ e.IsDueExactly now := by
  obtain ⟨counts, exact⟩ := count_notifyAt notifiable
  rw [isDue_iff_le_and_lt, Instant.le_iff_count_le counts, exact]
  refine and_congr_right fun _ => forall₂_congr fun mark _ => ?_
  rw [Instant.lt_iff_count_lt counts, exact]

/-- So is an event whose notification lies before every instant: it is due until one is recorded. -/
theorem FallsBeforeAll.isDue_iff (early : e.FallsBeforeAll)
    : e.isDue now ↔ e.IsDueExactly now := by
  rw [early.isDueExactly_iff, isDue_iff_le_and_lt, early.notifyAt_eq,
    Option.eq_none_iff_forall_ne_some]
  constructor
  · rintro ⟨-, unmarked⟩ mark marked
    exact absurd (Instant.earliest_le mark) (not_le.mpr (unmarked mark marked))
  · intro unmarked
    exact ⟨now.earliest_le, fun mark marked => absurd marked (unmarked mark)⟩

/-- Whether the latest instant has come, and none was recorded there or later, for an event whose
notification lies after every instant. -/
def IsDueTooSoon (e : Event) (now : Instant) : Prop :=
  e.FallsAfterAll ∧ .latest ≤ now ∧ ∀ mark, e.notified = some mark → mark < .latest

theorem FallsAfterAll.isDue_iff (late : e.FallsAfterAll) : e.isDue now ↔ e.IsDueTooSoon now := by
  rw [isDue_iff_le_and_lt, late.notifyAt_eq, IsDueTooSoon, and_iff_right late]

/-- Away from leap seconds exact arithmetic is that of plain nanoseconds. -/
theorem isDueExactly_iff_toNanos (start : ¬e.start.IsLeap) (ordinary : ¬now.IsLeap)
    (marks : ∀ mark, e.notified = some mark → ¬mark.IsLeap)
    : e.IsDueExactly now
      ↔ e.start.toNanos - e.lead.nanos ≤ now.toNanos
        ∧ ∀ mark, e.notified = some mark → mark.toNanos < e.start.toNanos - e.lead.nanos := by
  rw [IsDueExactly, Instant.count_of_not_isLeap start ordinary, notifyCount]
  refine and_congr_right fun _ => forall₂_congr fun mark marked => ?_
  rw [Instant.count_of_not_isLeap start (marks mark marked)]

/-- An event is due just when it is so in exact arithmetic, but for one thing: when its notification
lies after every instant it is never due exactly, and still due from the latest instant on until one
is recorded there. -/
theorem isDue_exactly_iff (e : Event) (now : Instant)
    : ((e.isDue now ↔ e.IsDueExactly now) ↔ ¬e.IsDueTooSoon now)
      ∧ (e.FallsAfterAll → ¬e.IsDueExactly now)
      ∧ (¬e.start.IsLeap → ¬now.IsLeap → (∀ mark, e.notified = some mark → ¬mark.IsLeap) →
          (e.IsDueExactly now
            ↔ e.start.toNanos - e.lead.nanos ≤ now.toNanos
              ∧ ∀ mark, e.notified = some mark →
                  mark.toNanos < e.start.toNanos - e.lead.nanos)) := by
  refine ⟨?_, fun late => late.not_isDueExactly now, isDueExactly_iff_toNanos⟩
  by_cases late : e.FallsAfterAll
  · rw [late.isDue_iff, iff_false_right (late.not_isDueExactly now)]
  · have agree : e.isDue now ↔ e.IsDueExactly now := by
      cases reached : e.notifyAt? with
      | some moment => exact isDue_iff_isDueExactly (by simp [reached])
      | none => exact ((notifyAt?_eq_none_iff.mp reached).resolve_right late).isDue_iff
    exact iff_of_true agree fun soon => late soon.1

/-- An event of the first of March 2024 that its owner is to be told of a hundred million days
later. -/
def farOff : Event :=
  { id := .nil
    owner := .nil
    title := "far off"
    description := ""
    start := .ofParts 1709287200 0 (by omega)
    finish := .ofParts 1709287200 0 (by omega)
    lead := ⟨-8640000000000000000000, by omega⟩
    notified := none }

/-- The event is due at the latest instant, though its notification lies after that. -/
theorem not_isDue_exactly_farOff
    : ¬∀ (e : Event) (now : Instant), e.isDue now ↔ e.IsDueExactly now := by
  intro exact
  have due : farOff.isDue .latest := by decide +kernel
  have come := ((exact farOff .latest).mp due).1
  exact absurd come (by decide +kernel)

end Event

end Almanac
