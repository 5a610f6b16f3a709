import Almanac.Time.Date
import Almanac.Time.Span

/-! Instants of universal time with nanosecond precision, their order and their arithmetic.
An instant is a second of the count from the start of 1970 and the nanoseconds into it. A leap
second belongs to the second before it, as nanoseconds past the first billion. Clocks insert one
after the last second of a minute only, but an instant may have one after any second.
-/

namespace Almanac.Time

/-- An instant between the start of the year -262143 and the end of the year 262142. -/
structure Instant where
  second : Int
  nano : Nat
  second_range : -8334601228800 ≤ second ∧ second ≤ 8210266876799
  nano_range : nano < 2000000000
  deriving DecidableEq, Repr

namespace Instant

/-- The instant of a second and the nanoseconds into it, both known to be in range. -/
def ofParts (second : Int) (nano : Nat)
    (range : (-8334601228800 ≤ second ∧ second ≤ 8210266876799) ∧ nano < 2000000000)
    : Instant :=
  ⟨second, nano, range.1, range.2⟩

/-- The instant of a second and the nanoseconds into it, when there is one. -/
def make? (second : Int) (nano : Nat) : Option Instant :=
  if range : (-8334601228800 ≤ second ∧ second ≤ 8210266876799) ∧ nano < 2000000000 then
    some (ofParts second nano range)
  else
    none

def earliest : Instant :=
  ⟨-8334601228800, 0, by omega, by omega⟩

def latest : Instant :=
  ⟨8210266876799, 999999999, by omega, by omega⟩

instance : Inhabited Instant :=
  ⟨⟨0, 0, by omega, by omega⟩⟩

/-- Instants are ordered by their second, then by the nanoseconds into it. -/
instance : Ord Instant :=
  ⟨fun a b => (compare a.second b.second).then (compare a.nano b.nano)⟩

instance : LT Instant :=
  ⟨fun a b => a.second < b.second ∨ (a.second = b.second ∧ a.nano < b.nano)⟩

instance (a b : Instant) : Decidable (a < b) :=
  inferInstanceAs (Decidable (a.second < b.second ∨ (a.second = b.second ∧ a.nano < b.nano)))

instance : LE Instant :=
  ⟨fun a b => ¬b < a⟩

instance (a b : Instant) : Decidable (a ≤ b) :=
  inferInstanceAs (Decidable ¬b < a)

/-- The nanoseconds from the start of 1970 to an instant. -/
def toNanos (t : Instant) : Int :=
  t.second * 1000000000 + t.nano

/-- The instant that many nanoseconds after the start of 1970, when it is in range. -/
def ofNanos? (nanos : Int) : Option Instant :=
  make? (nanos / 1000000000) (nanos % 1000000000).toNat

/-- An instant moved by a count of nanoseconds, when it is in range. The leap second that it lies in
may be moved within; it is passed in going back, but does not count in going forward. Other leap
seconds are not known of. -/
def shift? (t : Instant) (nanos : Int) : Option Instant :=
  if 1000000000 ≤ t.nano ∧ 1000000000 ≤ t.nano + nanos then
    if t.nano + nanos < 2000000000 then make? t.second (t.nano + nanos).toNat
    else ofNanos? (t.toNanos + nanos - 1000000000)
  else
    ofNanos? (t.toNanos + nanos)

/-- An instant earlier by a span, when it is in range. -/
def sub? (t : Instant) (s : Span) : Option Instant :=
  t.shift? (-s.nanos)

/-- An instant cut to the whole microsecond at or before it. -/
def truncate (t : Instant) : Instant :=
  { t with
    nano := t.nano - t.nano % 1000
    nano_range := by have := t.nano_range; omega }

def date (t : Instant) : Date :=
  .ofDayNumber (t.second / 86400)

/-- The seconds of an instant since the start of its day. -/
def secondOfDay (t : Instant) : Nat :=
  (t.second % 86400).toNat

/-- The same time of day in the next month, on the last day of that month when it is shorter. -/
def nextMonth? (t : Instant) : Option Instant :=
  make? (t.date.nextMonth.toDayNumber * 86400 + t.secondOfDay) t.nano

/-- Truncation leaves whole microseconds. -/
theorem nano_truncate_mod (t : Instant) : t.truncate.nano % 1000 = 0 := by
  simp only [truncate]
  omega

theorem make?_eq_some_iff {second : Int} {nano : Nat} {t : Instant}
    : make? second nano = some t ↔ t.second = second ∧ t.nano = nano := by
  constructor
  · intro made
    simp only [make?] at made
    split at made
    · cases made
      exact ⟨rfl, rfl⟩
    · cases made
  · rintro ⟨rfl, rfl⟩
    exact dif_pos ⟨t.second_range, t.nano_range⟩

theorem make?_eq_none_iff {second : Int} {nano : Nat}
    : make? second nano = none
      ↔ ¬(-8334601228800 ≤ second ∧ second ≤ 8210266876799)
        ∨ 2000000000 ≤ nano := by
  simp only [make?]
  split <;> simp <;> omega

/-- Nanoseconds are those of one ordinary instant at most. -/
theorem ofNanos?_eq_some_iff {nanos : Int} {t : Instant}
    : ofNanos? nanos = some t ↔ t.nano < 1000000000 ∧ t.toNanos = nanos := by
  rw [ofNanos?, make?_eq_some_iff, toNanos]
  omega

theorem ofNanos?_eq_none_iff {nanos : Int}
    : ofNanos? nanos = none
      ↔ nanos < -8334601228800000000000 ∨ 8210266876800000000000 ≤ nanos := by
  rw [ofNanos?, make?_eq_none_iff]
  omega

/-- An ordinary instant is found again from its nanoseconds. -/
theorem ofNanos?_toNanos (t : Instant) (h : t.nano < 1000000000)
    : ofNanos? t.toNanos = some t :=
  ofNanos?_eq_some_iff.mpr ⟨h, rfl⟩

end Instant

end Almanac.Time
