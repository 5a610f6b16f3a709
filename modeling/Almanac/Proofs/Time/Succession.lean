import Almanac.Proofs.Time.Months

/-! The calendar day by day. The date of a day is told by the date of day 0 and by how the date of
tomorrow follows from that of today, for all days before and after.
-/

namespace Almanac.Time.Date

/-- The date after a date: the next day of the month, or the first of the next month or year. -/
def tomorrow (d : Date) : Date :=
  if d.day < daysInMonth d.year d.month then { d with day := d.day + 1 }
  else if d.month < 12 then ⟨d.year, d.month + 1, 1⟩
  else ⟨d.year + 1, 1, 1⟩

variable {d : Date}

theorem isValid_tomorrow (valid : d.isValid) : d.tomorrow.isValid := by
  obtain ⟨first, last, begun, inside⟩ := (isValid_iff d).mp valid
  have long (year : Int) (month : Nat) : 1 ≤ daysInMonth year month := by
    fun_cases daysInMonth year month <;> omega
  rw [isValid_iff, tomorrow]
  split
  · rename_i more
    exact ⟨first, last, Nat.le_add_left 1 d.day, more⟩
  · split
    · rename_i more
      exact ⟨Nat.le_add_left 1 d.month, more, le_rfl, long _ _⟩
    · exact ⟨le_rfl, (by decide : 1 ≤ 12), le_rfl, long _ _⟩

/-- Dates are numbered without gaps, by cases on the month at its end. -/
theorem toDayNumber_tomorrow (valid : d.isValid) : d.tomorrow.toDayNumber = d.toDayNumber + 1 := by
  obtain ⟨year, month, day⟩ := d
  obtain ⟨first, last, begun, inside⟩ := (isValid_iff _).mp valid
  simp only at first last begun inside
  by_cases more : day < daysInMonth year month
  · simp only [tomorrow, more, if_true, toDayNumber]
    omega
  · obtain rfl : day = daysInMonth year month := by omega
    have leap := isLeapYear_iff year
    interval_cases month <;> simp [tomorrow, toDayNumber, daysInMonth, daysInEra] <;> grind

/-- Whether dates of numbered days are those of the Gregorian calendar, in which every day follows
from the day before. -/
structure IsGregorian (date : Int → Date) : Prop where
  epoch : date 0 = ⟨1970, 1, 1⟩
  valid : ∀ n, (date n).isValid
  follows : ∀ n, date (n + 1) = (date n).tomorrow

theorem isGregorian_ofDayNumber : IsGregorian ofDayNumber where
  epoch := by decide
  valid := isValid_ofDayNumber
  follows n := by
    have valid := isValid_ofDayNumber n
    have next := ofDayNumber_toDayNumber (isValid_tomorrow valid)
    rwa [toDayNumber_tomorrow valid, toDayNumber_ofDayNumber] at next

end Almanac.Time.Date
