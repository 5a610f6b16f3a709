import Almanac.Proofs.Period
import Almanac.Proofs.Time.Nanoseconds
import Almanac.Proofs.Time.Succession

/-! The last instants of windows.
The next window begins a period later, counted in days on the timeline of the start or in months on
the calendar. The window ends a microsecond before, or with the latest instant when there is no next
one. Days later a leap second is one with the second before it, so there ends of days do not follow
their starts.
-/

namespace Almanac

open Time

-------------------------------------------------------------------------------
-- A month later
-------------------------------------------------------------------------------

namespace Time

theorem Date.eq_nextMonth_iff {d e : Date}
    : e = d.nextMonth
      ↔ e.year = (if d.month = 12 then d.year + 1 else d.year)
        ∧ e.month = (if d.month = 12 then 1 else d.month + 1)
        ∧ e.day = min d.day (daysInMonth e.year e.month) := by
  obtain ⟨year, month, day⟩ := e
  simp only [nextMonth, Date.mk.injEq]
  constructor
  · rintro ⟨rfl, rfl, rfl⟩
    exact ⟨rfl, rfl, rfl⟩
  · rintro ⟨rfl, rfl, rfl⟩
    exact ⟨rfl, rfl, rfl⟩

namespace Instant

variable {t s n moved : Instant}

/-- The instant itself, or one a second earlier for an instant in a leap second. -/
def folded (t : Instant) : Instant :=
  { t with
    nano := t.nano % 1000000000
    nano_range := by omega }

/-- Only instants within a leap second are folded. -/
theorem folded_of_not_isLeap (ordinary : ¬t.IsLeap) : t.folded = t := by
  simp only [IsLeap] at ordinary
  exact ext_of_eq rfl (Nat.mod_eq_of_lt (by omega))

/-- Folding goes back, at most by the leap second. -/
theorem folded_le (t : Instant) : t.folded ≤ t :=
  le_iff.mpr (.inr ⟨rfl, Nat.mod_le _ _⟩)

/-- Whether an instant is a month after another: at the same time of its day, in the next month, on
the same day of it or else on its last. -/
structure IsMonthAfter (n t : Instant) : Prop where
  year : n.date.year = if t.date.month = 12 then t.date.year + 1 else t.date.year
  month : n.date.month = if t.date.month = 12 then 1 else t.date.month + 1
  day : n.date.day = min t.date.day (Date.daysInMonth n.date.year n.date.month)
  secondOfDay : n.secondOfDay = t.secondOfDay
  nano : n.nano = t.nano

/-- The computed month after is the one of the calendar; by counting days, dates and their numbers
being in bijection. -/
theorem nextMonth?_eq_some_iff : t.nextMonth? = some n ↔ n.IsMonthAfter t := by
  have valid := Date.isValid_nextMonth t.isValid_date
  rw [nextMonth?, make?_eq_some_iff]
  constructor
  · rintro ⟨second, nano⟩
    have inDay := t.secondOfDay_lt
    have day : n.second / 86400 = t.date.nextMonth.toDayNumber := by omega
    have date : n.date = t.date.nextMonth := by
      rw [Instant.date, day, Date.ofDayNumber_toDayNumber valid]
    obtain ⟨year, month, day⟩ := Date.eq_nextMonth_iff.mp date
    exact ⟨year, month, day, by rw [secondOfDay]; omega, nano⟩
  · rintro ⟨year, month, day, time, nano⟩
    have date := Date.eq_nextMonth_iff.mpr ⟨year, month, day⟩
    exact ⟨by rw [← date, ← time, n.toDayNumber_date], nano⟩

end Instant

end Time

-------------------------------------------------------------------------------
-- The next window
-------------------------------------------------------------------------------

namespace Period

variable {p : Period} {w n later : Instant}

/-- Whether an instant is a period after another. Days are counted on the timeline of the first. -/
def IsNext : Period → Instant → Instant → Prop
  | .day, w, n => w.Counts n ∧ w.count n = w.toNanos + 86400000000000
  | .week, w, n => w.Counts n ∧ w.count n = w.toNanos + 604800000000000
  | .month, w, n => n.IsMonthAfter w

/-- The next window starts where the calendar says, period by period. -/
theorem next?_eq_some_iff : p.next? w = some n ↔ p.IsNext w n := by
  cases p with
  | day => exact Instant.shift?_eq_some_iff
  | week => exact Instant.shift?_eq_some_iff
  | month => exact Instant.nextMonth?_eq_some_iff

theorem next?_eq_none_iff : p.next? w = none ↔ ∀ n, ¬p.IsNext w n := by
  simp only [Option.eq_none_iff_forall_ne_some, ne_eq, next?_eq_some_iff]

-------------------------------------------------------------------------------
-- The last instant
-------------------------------------------------------------------------------

theorem lastOf_of_none (none : p.next? w = none) : p.lastOf w = .latest := by
  simp [lastOf, none]

/-- No window ends past the latest instant. -/
theorem lastOf_le_latest (p : Period) (w : Instant) : p.lastOf w ≤ .latest := by
  cases next : p.next? w with
  | none => rw [lastOf_of_none next]
  | some n =>
      have within := le_latest_of_next? next
      have back := Instant.of_back (back_lastOf next)
      rw [Instant.le_iff] at within ⊢
      omega

/-- A window has its start, unless that comes after the latest instant. -/
theorem start_le_lastOf_iff : w ≤ p.lastOf w ↔ w ≤ .latest := by
  refine ⟨fun le => le_trans le (lastOf_le_latest p w), fun within => ?_⟩
  cases next : p.next? w with
  | none => rwa [lastOf_of_none next]
  | some n =>
      have far := add_le_second next
      have back := Instant.of_back (back_lastOf next)
      rw [Instant.le_iff]
      omega

-------------------------------------------------------------------------------
-- Days and weeks
-------------------------------------------------------------------------------

/-- Days and weeks are counts of seconds. -/
theorem next?_of_ne_month (days : p ≠ .month)
    : ∃ seconds : Int, 1 ≤ seconds
        ∧ ∀ w, p.next? w = Instant.make? (w.second + seconds) (w.nano % 1000000000) := by
  cases p with
  | day => exact ⟨86400, by omega, fun w => w.shift?_seconds 86400 (by omega)⟩
  | week => exact ⟨604800, by omega, fun w => w.shift?_seconds 604800 (by omega)⟩
  | month => exact absurd rfl days

/-- Days and weeks end as if the leap second were folded, since shifts drop it. -/
theorem lastOf_folded (days : p ≠ .month) (w : Instant) : p.lastOf w.folded = p.lastOf w := by
  obtain ⟨seconds, -, step⟩ := next?_of_ne_month days
  have same : p.next? w.folded = p.next? w := by
    rw [step, step, Instant.folded, Nat.mod_mod]
  rw [lastOf, lastOf, same]

/-- The ends of days and weeks follow their starts, leap seconds apart. -/
theorem lastOf_mono (days : p ≠ .month) (le : w.folded ≤ later.folded)
    : p.lastOf w ≤ p.lastOf later := by
  obtain ⟨seconds, forward, step⟩ := next?_of_ne_month days
  rw [Instant.le_iff] at le
  simp only [Instant.folded] at le
  cases next' : p.next? later with
  | none =>
      rw [lastOf_of_none next']
      exact lastOf_le_latest p w
  | some n' =>
      have range := w.second_range
      have range' := n'.second_range
      obtain ⟨second', nano'⟩ := Instant.make?_eq_some_iff.mp ((step later).symm.trans next')
      obtain ⟨n, made⟩
          : ∃ n, Instant.make? (w.second + seconds) (w.nano % 1000000000) = some n :=
        Instant.exists_make? (by omega) (by omega)
      obtain ⟨second, nano⟩ := Instant.make?_eq_some_iff.mp made
      have back := Instant.of_back (back_lastOf ((step w).trans made))
      have back' := Instant.of_back (back_lastOf next')
      rw [Instant.le_iff]
      omega

-------------------------------------------------------------------------------
-- Ends of windows
-------------------------------------------------------------------------------

/-- How a window ends. -/
structure Ends (p : Period) (w : Instant) : Prop where
  next : ∀ n, p.next? w = some n ↔ p.IsNext w n
  /-- A microsecond before the next window there is an instant, with which the window ends. -/
  before
    : ∀ n, p.IsNext w n →
        n.shift? (-1000) = some (p.lastOf w)
          ∧ n.Counts (p.lastOf w) ∧ n.count (p.lastOf w) = n.toNanos - 1000
  last : (∀ n, ¬p.IsNext w n) → p.lastOf w = .latest
  /-- A window has its start, unless that lies in the leap second after the latest instant. -/
  start_le : w ≤ p.lastOf w ↔ w ≤ .latest
  /-- Later days and weeks end later, unless they start in a leap second. -/
  mono
    : p ≠ .month → ∀ later, w ≤ later → (later.IsLeap → w.folded ≤ later.folded) →
        p.lastOf w ≤ p.lastOf later
  /-- Those that start in a leap second end with those that start a second before. -/
  folded : p ≠ .month → p.lastOf w.folded = p.lastOf w

/-- Windows end before the next ones on the Gregorian calendar. -/
theorem ends_windows : Date.IsGregorian Date.ofDayNumber ∧ ∀ p w, Ends p w := by
  refine ⟨Date.isGregorian_ofDayNumber, fun p w => ?_⟩
  constructor
  case next => exact fun n => next?_eq_some_iff
  case before =>
    intro n next
    have back := back_lastOf (next?_eq_some_iff.mpr next)
    exact ⟨back, Instant.of_shift? back⟩
  case last => exact fun none => lastOf_of_none (next?_eq_none_iff.mpr none)
  case start_le => exact start_le_lastOf_iff
  case mono =>
    intro days later le inLeap
    apply lastOf_mono days
    by_cases leap : later.IsLeap
    · exact inLeap leap
    · rw [Instant.folded_of_not_isLeap leap]
      exact le_trans w.folded_le le
  case folded => exact fun days => lastOf_folded days w

/-- In the leap second after the latest instant. -/
def afterLatest : Instant :=
  { Instant.latest with nano := 1500000000, nano_range := by decide }

/-- Before a leap second, in the second that it is folded into. -/
def beforeLeapSecond : Instant :=
  { Instant.lateInLeapSecond with nano := 950000000, nano_range := by omega }

/-- No period from an instant after the latest has its start, and a day from a leap second may end
before one from an earlier instant. -/
theorem not_ends_in_order
    : (∀ p, ¬afterLatest ≤ lastOf p afterLatest)
      ∧ beforeLeapSecond ≤ Instant.lateInLeapSecond
      ∧ ¬lastOf .day beforeLeapSecond ≤ lastOf .day Instant.lateInLeapSecond
      ∧ ¬lastOf .week beforeLeapSecond ≤ lastOf .week Instant.lateInLeapSecond := by
  refine ⟨fun p => ?_, by decide, by decide, by decide⟩
  cases p <;> decide

end Period

end Almanac
