import Almanac.Time.Instant
import Mathlib.Tactic.IntervalCases

/-! Days and dates correspond. A day is split into its era, its year from March and its day of that
year, and only a year that ends in a leap day has a day 365.
-/

namespace Almanac.Time.Date

-------------------------------------------------------------------------------
-- Years of an era
-------------------------------------------------------------------------------

/-- The days of an era before one of its years. -/
def daysBefore (year : Nat) : Nat :=
  365 * year + year / 4 - year / 100

/-- Whether a year from March has a day: day 365 is the leap day at its end. -/
def HasDay (year : Int) (day : Nat) : Prop :=
  day < 365 ∨ (day = 365 ∧ isLeapYear (year + 1))

theorem isLeapYear_iff (year : Int)
    : isLeapYear year ↔ year % 4 = 0 ∧ (year % 100 ≠ 0 ∨ year % 400 = 0) := by
  simp [isLeapYear]

theorem HasDay.le {year : Int} {day : Nat} (has : HasDay year day) : day ≤ 365 := by
  rcases has with short | ⟨last, _⟩ <;> omega

section Era

variable {century group single rest : Nat}

theorem daysBefore_eq (group_le : group ≤ 24) (single_le : single ≤ 3)
    : daysBefore (100 * century + 4 * group + single)
        = 36524 * century + 1461 * group + 365 * single := by
  have fours : (100 * century + 4 * group + single) / 4 = 25 * century + group := by omega
  have hundreds : (100 * century + 4 * group + single) / 100 = century := by omega
  rw [daysBefore, fours, hundreds]
  omega

theorem daysBefore_le {year other : Nat} (le : year ≤ other)
    : daysBefore year ≤ daysBefore other := by
  have centuries : year / 100 = year / 4 / 25 := by omega
  have centuries' : other / 100 = other / 4 / 25 := by omega
  have groups : year / 4 ≤ other / 4 := by omega
  rw [daysBefore, daysBefore, centuries, centuries']
  omega

/-- The count of days gives the year of each day but the last one of the era. Groups of 1460 days
run ahead of the years by one at the end of some years. -/
theorem yearOfEra_eq (century_le : century ≤ 3) (group_le : group ≤ 24) (single_le : single ≤ 3)
    (rest_le : rest ≤ 365) (last_year : rest = 365 → single = 3) {day : Nat}
    (early : 1461 * group + (365 * single + rest) < 36524)
    (day_eq : day = 36524 * century + (1461 * group + (365 * single + rest)))
    : (day - day / 1460 + day / 36524 - day / 146096) / 365
        = 100 * century + 4 * group + single := by
  have hundreds : day / 36524 = century := by omega
  have eras : day / 146096 = 0 := by omega
  obtain ⟨ahead, fours, spare⟩ : ∃ ahead, day / 1460 = 25 * century + group + ahead
      ∧ (ahead = 0 ∧ rest < 365 ∨ ahead = 1 ∧ 0 < rest) := by
    rcases Nat.lt_or_ge (24 * century + group + 365 * single + rest) 1460 with before | after
    · exact ⟨0, by omega, .inl (by omega)⟩
    · exact ⟨1, by omega, .inr (by omega)⟩
  have whole : day - day / 1460 + day / 36524 - day / 146096
      = 365 * (100 * century + 4 * group + single) + (rest - ahead) := by
    rw [fours, hundreds, eras]
    omega
  rw [whole]
  omega

/-- A year has a leap day at its end when it is the last of its group, and the group is not the
last of its century or the century is the last of its era. -/
theorem hasDay_of_split (group_le : group ≤ 24) (rest_le : rest ≤ 365)
    (last_year : rest = 365 → single = 3)
    (last_group : rest = 365 → group = 24 → century = 3)
    : HasDay ((100 * century + 4 * group + single : Nat) : Int) rest := by
  rcases Nat.lt_or_eq_of_le rest_le with short | long
  · exact .inl short
  · have single_eq := last_year long
    have century_eq := last_group long
    refine .inr ⟨long, (isLeapYear_iff _).mpr ⟨by omega, ?_⟩⟩
    rcases Nat.lt_or_eq_of_le group_le with inside | last
    · left
      omega
    · have := century_eq last
      right
      omega

end Era

/-- A day of an era lies in one of its years, the one that the count of days gives. Centuries are
split off first, then groups of four years. -/
theorem exists_yearOfEra {day : Nat} (inEra : day < daysInEra)
    : ∃ year rest : Nat, year < 400 ∧ HasDay year rest ∧ day = daysBefore year + rest
        ∧ (day - day / 1460 + day / 36524 - day / 146096) / 365 = year := by
  simp only [daysInEra] at inEra
  rcases (by omega : day < 146096 ∨ day = 146096) with early | last
  · obtain ⟨century, hundred, day_eq, hundred_lt⟩
        : ∃ century hundred, day = 36524 * century + hundred ∧ hundred < 36524 :=
      ⟨day / 36524, day % 36524, by omega, by omega⟩
    obtain ⟨group, four, hundred_eq, four_lt⟩
        : ∃ group four, hundred = 1461 * group + four ∧ four < 1461 :=
      ⟨hundred / 1461, hundred % 1461, by omega, by omega⟩
    obtain ⟨single, rest, single_le, four_eq, rest_le, last_year⟩
        : ∃ single rest, single ≤ 3 ∧ four = 365 * single + rest ∧ rest ≤ 365
          ∧ (rest = 365 → single = 3) :=
      ⟨min (four / 365) 3, four - 365 * min (four / 365) 3, by omega⟩
    have century_le : century ≤ 3 := by omega
    have group_le : group ≤ 24 := by omega
    subst hundred_eq four_eq
    refine ⟨100 * century + 4 * group + single, rest, by omega, ?_, ?_, ?_⟩
    · exact hasDay_of_split group_le rest_le last_year (by omega)
    · rw [daysBefore_eq group_le single_le]
      omega
    · exact yearOfEra_eq century_le group_le single_le rest_le last_year hundred_lt day_eq
  · subst last
    exact ⟨399, 365, by decide, .inr (by decide), by decide, by decide⟩

-------------------------------------------------------------------------------
-- Dates by day
-------------------------------------------------------------------------------

/-- The date of a day counted from 1 March of a year. -/
def ofMarch (year : Int) (day : Nat) : Date :=
  let monthFromMarch := (5 * day + 2) / 153
  let month := if monthFromMarch < 10 then monthFromMarch + 3 else monthFromMarch - 9
  { year := if month ≤ 2 then year + 1 else year
    month
    day := day - (153 * monthFromMarch + 2) / 5 + 1 }

/-- The date of a numbered day by its era, its year and its day from March. -/
theorem exists_ofDayNumber_eq (n : Int)
    : ∃ era : Int, ∃ year day : Nat, year < 400 ∧ HasDay (era * 400 + year) day
        ∧ n = era * daysInEra + daysBefore year + day - epochOffset
        ∧ ofDayNumber n = ofMarch (era * 400 + year) day := by
  have inEra : ((n + epochOffset) % daysInEra).toNat < daysInEra := by
    simp only [daysInEra]
    omega
  obtain ⟨year, day, year_lt, has, dayOfEra, yearOfEra⟩ := exists_yearOfEra inEra
  have dayOfYear : ((n + epochOffset) % daysInEra).toNat - daysBefore year = day := by omega
  refine ⟨(n + epochOffset) / daysInEra, year, day, year_lt, ?_, ?_, ?_⟩
  · refine has.imp_right fun ⟨last, leap⟩ => ⟨last, ?_⟩
    rw [isLeapYear_iff] at leap ⊢
    omega
  · simp only [daysInEra] at dayOfEra ⊢
    omega
  · simp only [ofDayNumber, ofMarch, yearOfEra]
    rw [← daysBefore, dayOfYear]

theorem isValid_iff (d : Date)
    : d.isValid ↔ 1 ≤ d.month ∧ d.month ≤ 12 ∧ 1 ≤ d.day ∧ d.day ≤ daysInMonth d.year d.month := by
  simp [isValid, and_assoc]

theorem daysInMonth_le (year : Int) (month : Nat) : daysInMonth year month ≤ 31 := by
  fun_cases daysInMonth year month <;> omega

/-- Days counted from March are dates; February comes last, so only its end depends on leap
years. -/
theorem isValid_ofMarch {year : Int} {day : Nat} (has : HasDay year day)
    : (ofMarch year day).isValid := by
  rw [isValid_iff]
  simp only [ofMarch]
  rcases has with short | ⟨last, leap⟩
  · have february : 28 ≤ if isLeapYear (year + 1) then 29 else 28 := by split <;> omega
    obtain ⟨month, month_eq⟩ : ∃ month, (5 * day + 2) / 153 = month := ⟨_, rfl⟩
    have twelve : month < 12 := by omega
    rw [month_eq]
    interval_cases month <;> simp [daysInMonth] <;> omega
  · subst last
    simp [daysInMonth, leap]

/-- January and February, from day 306 on, belong to the next year. -/
theorem year_ofMarch (year : Int) {day : Nat} (short : day ≤ 365)
    : (ofMarch year day).year = if day < 306 then year else year + 1 := by
  obtain ⟨month, month_eq⟩ : ∃ month, (5 * day + 2) / 153 = month := ⟨_, rfl⟩
  simp only [ofMarch, month_eq]
  rcases Nat.lt_or_ge month 10 with early | late
  · rw [if_pos early, if_neg (by omega), if_pos (by omega)]
  · rw [if_neg (Nat.not_lt.mpr late), if_pos (by omega), if_neg (by omega)]

/-- The number of a day is found again from its date. -/
theorem toDayNumber_ofMarch {era : Int} {year day : Nat} (inEra : year < 400)
    (has : HasDay (era * 400 + year) day)
    : (ofMarch (era * 400 + year) day).toDayNumber
        = era * daysInEra + daysBefore year + day - epochOffset := by
  have short := has.le
  obtain ⟨date, date_eq⟩ : ∃ date, ofMarch (era * 400 + year) day = date := ⟨_, rfl⟩
  have march : (if date.month ≤ 2 then date.year - 1 else date.year) = era * 400 + year := by
    subst date_eq
    simp only [ofMarch]
    split <;> omega
  have fromMarch : (date.month + 9) % 12 = (5 * day + 2) / 153 := by
    subst date_eq
    simp only [ofMarch]
    split <;> omega
  have dayOfMonth : date.day = day - (153 * ((5 * day + 2) / 153) + 2) / 5 + 1 := by
    subst date_eq
    rfl
  have dayOfYear : (153 * ((date.month + 9) % 12) + 2) / 5 + date.day - 1 = day := by
    rw [fromMarch, dayOfMonth]
    omega
  have yearOfEra : (era * 400 + (year : Int)) % 400 = year := by omega
  have ofEra : (era * 400 + (year : Int)) / 400 = era := by omega
  simp only [date_eq, toDayNumber, march, dayOfYear, yearOfEra, ofEra]
  simp only [daysBefore]
  omega

/-- Every day number names a date of the calendar. -/
theorem isValid_ofDayNumber (n : Int) : (ofDayNumber n).isValid := by
  obtain ⟨era, year, day, inEra, has, -, date_eq⟩ := exists_ofDayNumber_eq n
  rw [date_eq]
  exact isValid_ofMarch has

@[simp]
theorem toDayNumber_ofDayNumber (n : Int) : (ofDayNumber n).toDayNumber = n := by
  obtain ⟨era, year, day, inEra, has, n_eq, date_eq⟩ := exists_ofDayNumber_eq n
  rw [date_eq, toDayNumber_ofMarch inEra has, n_eq]

/-- The days of the years from -262143 to 262142. -/
theorem year_ofDayNumber_bounds {n : Int} (after : -96465292 ≤ n) (before : n ≤ 95026236)
    : -262143 ≤ (ofDayNumber n).year ∧ (ofDayNumber n).year ≤ 262142 := by
  obtain ⟨era, year, day, inEra, has, n_eq, date_eq⟩ := exists_ofDayNumber_eq n
  have short := has.le
  have year_le : daysBefore year ≤ daysBefore 399 := daysBefore_le (by omega)
  simp only [daysInEra, epochOffset] at n_eq
  rw [(by decide : daysBefore 399 = 145731)] at year_le
  rw [date_eq, year_ofMarch _ short]
  constructor
  · by_contra low
    have era_eq : era = -656 := by split at low <;> omega
    rcases Nat.lt_or_ge day 306 with early | late
    · have first : daysBefore year ≤ daysBefore 256 := daysBefore_le (by omega)
      rw [(by decide : daysBefore 256 = 93502)] at first
      omega
    · have first : daysBefore year ≤ daysBefore 255 := daysBefore_le (by omega)
      rw [(by decide : daysBefore 255 = 93136)] at first
      omega
  · by_contra high
    have era_eq : era = 655 := by split at high <;> omega
    rcases Nat.lt_or_ge day 306 with early | late
    · have last : daysBefore 143 ≤ daysBefore year := daysBefore_le (by omega)
      rw [(by decide : daysBefore 143 = 52229)] at last
      omega
    · have last : daysBefore 142 ≤ daysBefore year := daysBefore_le (by omega)
      rw [(by decide : daysBefore 142 = 51864)] at last
      omega

end Almanac.Time.Date

namespace Almanac.Time.Instant

theorem isValid_date (t : Instant) : t.date.isValid :=
  Date.isValid_ofDayNumber _

/-- The dates of instants lie within the years that can be shown. -/
theorem year_date_bounds (t : Instant) : -262143 ≤ t.date.year ∧ t.date.year ≤ 262142 := by
  have range := t.second_range
  exact Date.year_ofDayNumber_bounds (by omega) (by omega)

/-- An instant's second is found again from its date and its time of day. -/
theorem toDayNumber_date (t : Instant)
    : t.date.toDayNumber * 86400 + t.secondOfDay = t.second := by
  rw [date, Date.toDayNumber_ofDayNumber, secondOfDay]
  omega

theorem secondOfDay_lt (t : Instant) : t.secondOfDay < 86400 := by
  rw [secondOfDay]
  omega

end Almanac.Time.Instant
