/-! Dates of the proleptic Gregorian calendar and their numbering by days.
Day 0 is 1 January 1970. Years are counted from March inside an era of four hundred years, so that
a leap day is the last day of its year.
-/

namespace Almanac.Time

/-- A year, a month from 1 and a day of the month from 1. -/
structure Date where
  year : Int
  month : Nat
  day : Nat
  deriving DecidableEq, Repr

namespace Date

/-- Every fourth year is a leap year, but of the full centuries only every fourth. -/
def isLeapYear (year : Int) : Bool :=
  year % 4 = 0 && (year % 100 ≠ 0 || year % 400 = 0)

/-- The number of days of a month. -/
def daysInMonth (year : Int) (month : Nat) : Nat :=
  match month with
  | 2 => if isLeapYear year then 29 else 28
  | 4 | 6 | 9 | 11 => 30
  | _ => 31

def isValid (d : Date) : Bool :=
  1 ≤ d.month && d.month ≤ 12 && 1 ≤ d.day && d.day ≤ daysInMonth d.year d.month

/-- The days of an era of four hundred years. -/
def daysInEra : Nat :=
  146097

/-- The number of 1 March of the year 0, counted down from day 0. -/
def epochOffset : Int :=
  719468

def toDayNumber (d : Date) : Int :=
  let year := if d.month ≤ 2 then d.year - 1 else d.year
  let yearOfEra := year % 400
  let dayOfYear := (153 * ((d.month + 9) % 12) + 2) / 5 + d.day - 1
  let dayOfEra := yearOfEra * 365 + yearOfEra / 4 - yearOfEra / 100 + dayOfYear
  year / 400 * daysInEra + dayOfEra - epochOffset

def ofDayNumber (n : Int) : Date :=
  let era := (n + epochOffset) / daysInEra
  let dayOfEra := ((n + epochOffset) % daysInEra).toNat
  let yearOfEra := (dayOfEra - dayOfEra / 1460 + dayOfEra / 36524 - dayOfEra / 146096) / 365
  let dayOfYear := dayOfEra - (365 * yearOfEra + yearOfEra / 4 - yearOfEra / 100)
  let monthFromMarch := (5 * dayOfYear + 2) / 153
  let month := if monthFromMarch < 10 then monthFromMarch + 3 else monthFromMarch - 9
  let year := era * 400 + yearOfEra
  { year := if month ≤ 2 then year + 1 else year
    month
    day := dayOfYear - (153 * monthFromMarch + 2) / 5 + 1 }

/-- The same day of the next month, or the last day of that month when it is shorter. -/
def nextMonth (d : Date) : Date :=
  let year := if d.month = 12 then d.year + 1 else d.year
  let month := if d.month = 12 then 1 else d.month + 1
  { year, month, day := min d.day (daysInMonth year month) }

/-- Day 0 is 1 January 1970. -/
theorem toDayNumber_epoch : toDayNumber ⟨1970, 1, 1⟩ = 0 := by decide

end Date

end Almanac.Time
