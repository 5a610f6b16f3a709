import Almanac.Proofs.Time.Calendar

/-! A month later. Dates and the numbers of their days determine each other, so what a calendar says
of dates holds of days. The day of the month stays or becomes the last one: at least four weeks
pass, and the last day of a year is not reached from the shorter month before.
-/

namespace Almanac.Time.Date

-------------------------------------------------------------------------------
-- Dates by the numbers of their days
-------------------------------------------------------------------------------

/-- The days of a year are before those of later years of its era. -/
theorem daysBefore_add_lt {era : Int} {year later day : Nat} (has : HasDay (era * 400 + year) day)
    (before : year < later) (inEra : later < 400)
    : daysBefore year + day < daysBefore later := by
  have next : daysBefore year + day < daysBefore (year + 1) := by
    simp only [HasDay, isLeapYear_iff] at has
    simp only [daysBefore]
    omega
  exact next.trans_le (daysBefore_le before)

theorem daysBefore_add_lt_daysInEra {era : Int} {year day : Nat} (inEra : year < 400)
    (has : HasDay (era * 400 + year) day)
    : daysBefore year + day < daysInEra := by
  simp only [HasDay, isLeapYear_iff] at has
  simp only [daysBefore, daysInEra]
  omega

/-- A numbered day has one era, one year and one day of the year. -/
theorem ofDayNumber_eq {era : Int} {year day : Nat} (inEra : year < 400)
    (has : HasDay (era * 400 + year) day)
    : ofDayNumber (era * daysInEra + daysBefore year + day - epochOffset)
        = ofMarch (era * 400 + year) day := by
  obtain ⟨era', year', day', inEra', has', same, date_eq⟩
    := exists_ofDayNumber_eq (era * daysInEra + daysBefore year + day - epochOffset)
  have short := daysBefore_add_lt_daysInEra inEra has
  have short' := daysBefore_add_lt_daysInEra inEra' has'
  obtain rfl : era = era' := by
    simp only [daysInEra] at same short short'
    omega
  have sum : daysBefore year + day = daysBefore year' + day' := by omega
  obtain rfl : year = year' := by
    rcases Nat.lt_trichotomy year year' with less | eq | more
    · have := daysBefore_add_lt has less inEra'
      omega
    · exact eq
    · have := daysBefore_add_lt has' more inEra
      omega
  obtain rfl : day = day' := by omega
  exact date_eq

/-- Every date is a day of a year from March, by cases on the month. -/
theorem exists_eq_ofMarch {d : Date} (valid : d.isValid)
    : ∃ year day, HasDay year day ∧ d = ofMarch year day := by
  obtain ⟨year, month, day⟩ := d
  obtain ⟨first, last, begun, inside⟩ := (isValid_iff _).mp valid
  simp only at first last begun inside
  refine ⟨if month ≤ 2 then year - 1 else year, (153 * ((month + 9) % 12) + 2) / 5 + day - 1, ?_⟩
  interval_cases month <;>
    simp only [HasDay, ofMarch, daysInMonth, Date.mk.injEq] at inside ⊢ <;> grind

/-- A date is found again from the number of its day. -/
theorem ofDayNumber_toDayNumber {d : Date} (valid : d.isValid) : ofDayNumber d.toDayNumber = d := by
  obtain ⟨year, day, has, rfl⟩ := exists_eq_ofMarch valid
  obtain ⟨era, yearOfEra, rfl, inEra⟩
      : ∃ era : Int, ∃ yearOfEra : Nat, year = era * 400 + yearOfEra ∧ yearOfEra < 400 :=
    ⟨year / 400, (year % 400).toNat, by omega, by omega⟩
  rw [toDayNumber_ofMarch inEra has, ofDayNumber_eq inEra has]

-------------------------------------------------------------------------------
-- The next month
-------------------------------------------------------------------------------

variable {d : Date}

theorem isValid_nextMonth (valid : d.isValid) : d.nextMonth.isValid := by
  obtain ⟨first, last, begun, -⟩ := (isValid_iff d).mp valid
  have long (year : Int) (month : Nat) : 1 ≤ daysInMonth year month := by
    fun_cases daysInMonth year month <;> omega
  simp only [isValid_iff, nextMonth]
  refine ⟨by split <;> omega, by split <;> omega, ?_, Nat.min_le_right _ _⟩
  exact Nat.le_min.mpr ⟨begun, long _ _⟩

/-- At least 28 days lie between a date and the one a month later, by cases on the month. -/
theorem add_le_toDayNumber_nextMonth (valid : d.isValid)
    : d.toDayNumber + 28 ≤ d.nextMonth.toDayNumber := by
  obtain ⟨year, month, day⟩ := d
  obtain ⟨first, last, begun, inside⟩ := (isValid_iff _).mp valid
  simp only at first last begun inside
  interval_cases month <;>
    simp only [toDayNumber, nextMonth, daysInMonth, daysInEra] at inside ⊢ <;> grind

/-- No date lies a month before the last day of a year, as November is shorter than December. -/
theorem toDayNumber_nextMonth_ne (valid : d.isValid) (year : Int)
    : d.nextMonth.toDayNumber ≠ toDayNumber ⟨year, 12, 31⟩ := by
  intro same
  have eq : d.nextMonth = ⟨year, 12, 31⟩ := by
    rw [← ofDayNumber_toDayNumber (isValid_nextMonth valid), same]
    exact ofDayNumber_toDayNumber (by simp [isValid_iff, daysInMonth])
  simp only [nextMonth, Date.mk.injEq] at eq
  obtain ⟨-, december, long⟩ := eq
  have november : d.month = 11 := by split at december <;> omega
  have short : d.day ≤ 30 := by
    simpa [november, daysInMonth] using ((isValid_iff d).mp valid).2.2.2
  omega

end Almanac.Time.Date
