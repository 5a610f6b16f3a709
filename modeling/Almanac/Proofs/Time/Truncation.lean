import Almanac.Event.Notification
import Almanac.Proofs.Order

/-! What is kept in whole microseconds, and what stays so under arithmetic. -/

namespace Almanac

namespace Time

-------------------------------------------------------------------------------
-- Instants
-------------------------------------------------------------------------------

namespace Instant

/-- Whether an instant is in whole microseconds. -/
def IsWhole (t : Instant) : Prop :=
  t.nano % 1000 = 0

theorem isWhole_truncate (t : Instant) : t.truncate.IsWhole :=
  nano_truncate_mod t

theorem isWhole_of_truncate_eq {t : Instant} (same : t.truncate = t) : t.IsWhole :=
  same ▸ isWhole_truncate t

/-- Cutting does not pass an instant in whole microseconds. -/
theorem IsWhole.le_truncate {a b : Instant} (whole : a.IsWhole) (le : a ≤ b) : a ≤ b.truncate := by
  rw [le_iff] at le ⊢
  simp only [IsWhole] at whole
  simp only [truncate]
  omega

theorem isWhole_of_make? {second : Int} {nano : Nat} {t : Instant}
    (made : make? second nano = some t) (whole : nano % 1000 = 0)
    : t.IsWhole := by
  rwa [IsWhole, (make?_eq_some_iff.mp made).2]

theorem isWhole_of_ofNanos? {nanos : Int} {t : Instant} (made : ofNanos? nanos = some t)
    (whole : nanos % 1000 = 0)
    : t.IsWhole :=
  isWhole_of_make? made (by omega)

/-- Moving by whole microseconds keeps whole microseconds. -/
theorem IsWhole.shift? {t moved : Instant} {nanos : Int} (whole : t.IsWhole)
    (steps : nanos % 1000 = 0) (reached : t.shift? nanos = some moved)
    : moved.IsWhole := by
  simp only [IsWhole] at whole
  have linear : (t.toNanos + nanos) % 1000 = 0 := by simp only [toNanos]; omega
  simp only [Instant.shift?] at reached
  split at reached
  · split at reached
    · exact isWhole_of_make? reached (by omega)
    · exact isWhole_of_ofNanos? reached (by omega)
  · exact isWhole_of_ofNanos? reached linear

end Instant

-------------------------------------------------------------------------------
-- Spans
-------------------------------------------------------------------------------

namespace Span

theorem wholeMicros_bounds (s : Span)
    : -9223372036854775807000000 ≤ s.wholeMicros * 1000
      ∧ s.wholeMicros * 1000 ≤ 9223372036854775807000000 := by
  have bounds := s.bounded
  have size : s.wholeMicros.natAbs = s.nanos.natAbs / 1000 := Int.natAbs_tdiv s.nanos 1000
  omega

theorem nanos_truncate {s : Span} (fits : fitsWord s.wholeMicros)
    : s.truncate.nanos = s.wholeMicros * 1000 := by
  simp [truncate, micros?, ofMicros?, fits, ofNanos?, s.wholeMicros_bounds]

theorem truncate_of_not_fits {s : Span} (long : ¬fitsWord s.wholeMicros) : s.truncate = s := by
  simp [truncate, micros?, long]

@[simp]
theorem wholeMicros_truncate (s : Span) : s.truncate.wholeMicros = s.wholeMicros := by
  by_cases fits : fitsWord s.wholeMicros
  · rw [wholeMicros, nanos_truncate fits, Int.mul_tdiv_cancel _ (by omega)]
  · rw [truncate_of_not_fits fits]

@[simp]
theorem truncate_truncate (s : Span) : s.truncate.truncate = s.truncate := by
  by_cases fits : fitsWord s.wholeMicros
  · have again : fitsWord s.truncate.wholeMicros := by rwa [wholeMicros_truncate]
    apply nanos_injective
    rw [nanos_truncate again, wholeMicros_truncate, nanos_truncate fits]
  · rw [truncate_of_not_fits fits, truncate_of_not_fits fits]

/-- A span is its whole microseconds and less than one of them more, away from zero. -/
theorem nanos_bounds (s : Span)
    : 0 ≤ s.nanos ∧ s.wholeMicros * 1000 ≤ s.nanos ∧ s.nanos < s.wholeMicros * 1000 + 1000
      ∨ s.nanos < 0 ∧ s.nanos ≤ s.wholeMicros * 1000 ∧ s.wholeMicros * 1000 < s.nanos + 1000 := by
  have size : s.wholeMicros.natAbs = s.nanos.natAbs / 1000 := Int.natAbs_tdiv s.nanos 1000
  rcases Int.le_total 0 s.nanos with positive | negative
  · have sign : 0 ≤ s.wholeMicros := Int.tdiv_nonneg positive (by omega)
    omega
  · have sign : s.wholeMicros ≤ Int.tdiv 0 1000 := Int.tdiv_le_tdiv (by omega) negative
    rw [Int.zero_tdiv] at sign
    omega

/-- Cutting keeps the order of spans, also between those that are cut and those that are kept whole:
all of one sign that are kept whole lie beyond those that are cut. -/
theorem nanos_truncate_mono {a b : Span} (le : a.nanos ≤ b.nanos)
    : a.truncate.nanos ≤ b.truncate.nanos := by
  have steps : a.wholeMicros ≤ b.wholeMicros := Int.tdiv_le_tdiv (by omega) le
  have bounds := a.nanos_bounds
  have bounds' := b.nanos_bounds
  by_cases fits : fitsWord a.wholeMicros <;> by_cases fits' : fitsWord b.wholeMicros
  · rw [nanos_truncate fits, nanos_truncate fits']
    omega
  · rw [nanos_truncate fits, truncate_of_not_fits fits']
    simp [fitsWord] at fits fits'
    omega
  · rw [truncate_of_not_fits fits, nanos_truncate fits']
    simp [fitsWord] at fits fits'
    omega
  · rwa [truncate_of_not_fits fits, truncate_of_not_fits fits']

/-- A span that is kept as it is by truncation and can be written is in whole microseconds. -/
theorem nanos_emod_of_micros? {s : Span} (same : s.truncate = s) (written : s.micros?.isSome)
    : s.nanos % 1000 = 0 := by
  have fits : fitsWord s.wholeMicros := by
    by_contra long
    simp [micros?, long] at written
  have nanos := nanos_truncate fits
  rw [same] at nanos
  omega

end Span

end Time

-------------------------------------------------------------------------------
-- Events
-------------------------------------------------------------------------------

/-- A notification can be written just when a word holds the microseconds of its lead. -/
theorem Notification.exists_encode_iff (n : Notification)
    : (∃ payload, n.encode = .ok payload) ↔ Time.Span.fitsWord n.lead.wholeMicros := by
  by_cases fits : Time.Span.fitsWord n.lead.wholeMicros <;>
    simp [encode, toJson, Json.ofSpan, Time.Span.micros?, fits, Except.map]

namespace Event

open Time

@[simp]
theorem normalize_normalize (e : Event) : e.normalize.normalize = e.normalize := by
  simp [normalize, Function.comp_def]

/-- The instant of a notification that can be written is in whole microseconds, when the event is
as stores keep it. -/
theorem isWhole_notifyAt {e : Event} {payload : List UInt8} (normal : e.normalize = e)
    (notifiable : e.notifyAt?.isSome) (written : e.notification.encode = .ok payload)
    : e.notifyAt.IsWhole := by
  obtain ⟨t, reached⟩ := Option.isSome_iff_exists.mp notifiable
  have start : e.start.truncate = e.start := congrArg Event.start normal
  have lead : e.lead.truncate = e.lead := congrArg Event.lead normal
  have steps : e.lead.micros?.isSome := by
    by_contra long
    have unwritten : e.lead.micros? = none := by simpa using long
    simp [Notification.encode, Notification.toJson, Event.notification, Json.ofSpan, unwritten,
      Except.map] at written
  have whole := Span.nanos_emod_of_micros? lead steps
  rw [notifyAt, reached, Option.getD_some]
  exact (Instant.isWhole_of_truncate_eq start).shift? (by omega) reached

end Event

end Almanac
