import Almanac.Proofs.Text.Digits
import Almanac.Proofs.Time.Calendar
import Almanac.Proofs.Time.Nanoseconds
import Almanac.Time.Instant.Printer
import Almanac.Time.Instant.Reader

/-! Timestamps are read back. Each part of a timestamp is read up to the mark behind it, so that the
parts are put together by what follows them.

A clock shows a leap second as the second 60 of its minute. One that an instant has after another
second has no text of its own: it is told as the second that follows, and read as that.
-/

namespace Almanac

-------------------------------------------------------------------------------
-- Blanks and digits
-------------------------------------------------------------------------------

namespace Text

theorem isBlank_of_isDigit {c : Char} (digit : c.isDigit) : isBlank c = false := by
  have range : 48 ≤ c.toNat ∧ c.toNat ≤ 57 := Char.isDigit_iff_toNat.mp digit
  simp [isBlank, blankRanges]
  omega

/-- A padded number begins with a digit. -/
theorem exists_padded_eq (width n : Nat)
    : ∃ c tail, padded width n = c :: tail ∧ c.isDigit := by
  obtain ⟨c, tail, digits⟩ := List.exists_cons_of_ne_nil (padded_ne_nil width n)
  exact ⟨c, tail, digits, isDigit_of_mem_padded (digits ▸ List.mem_cons_self)⟩

@[simp]
theorem skipBlank_padded_append (width n : Nat) (rest : List Char)
    : skipBlank (padded width n ++ rest) = padded width n ++ rest := by
  obtain ⟨c, tail, digits, digit⟩ := exists_padded_eq width n
  rw [digits, List.cons_append, skipBlank_cons_of_not_blank _ (isBlank_of_isDigit digit)]

/-- The digits of a padded number end where a mark follows. -/
theorem takeWhile_isDigit_padded (width n : Nat) {mark : Char} (stop : mark.isDigit = false)
    (rest : List Char)
    : (padded width n ++ mark :: rest).takeWhile Char.isDigit = padded width n := by
  rw [List.takeWhile_append_of_pos fun _ => isDigit_of_mem_padded]
  simp [stop]

end Text

namespace Time

namespace Instant

open Text

-------------------------------------------------------------------------------
-- Parts
-------------------------------------------------------------------------------

/-- A number of a fixed width is read up to that width. -/
theorem number?_padded {width n : Nat} (positive : 0 < width) (fits : n < 10 ^ width)
    (rest : List Char)
    : number? (some width) (padded width n ++ rest) = some (n, rest) := by
  have length := length_padded positive fits
  have run : ((padded width n ++ rest).takeWhile Char.isDigit).take width = padded width n := by
    rw [List.takeWhile_append_of_pos fun _ => isDigit_of_mem_padded]
    exact List.take_left' length
  simp [number?, run]

/-- A number of any width is read up to the mark behind it. -/
theorem number?_none_padded (width n : Nat) {mark : Char} (stop : mark.isDigit = false)
    (rest : List Char)
    : number? none (padded width n ++ mark :: rest) = some (n, mark :: rest) := by
  simp [number?, takeWhile_isDigit_padded width n stop]

theorem pair?_padded {n : Nat} (fits : n < 100) (rest : List Char)
    : pair? (padded 2 n ++ rest) = some (n, rest) := by
  rw [pair?, skipBlank_padded_append]
  exact number?_padded (by omega) fits rest

theorem afterMark?_cons {mark : Char} (solid : isBlank mark = false) (rest : List Char)
    : afterMark? mark (mark :: rest) = some rest := by
  simp [afterMark?, skipBlank_cons_of_not_blank _ solid]

/-- A year without a sign is read from its first four digits, if it has as many. -/
theorem year?_cons_of_isDigit {c : Char} (digit : c.isDigit) (s : List Char)
    : year? (c :: s) = (number? (some 4) (c :: s)).map fun (n, rest) => ((n : Int), rest) := by
  rw [year?, skipBlank_cons_of_not_blank _ (isBlank_of_isDigit digit)]
  split
  case h_1 same =>
      cases same
      exact absurd digit (by decide)
  case h_2 same =>
      cases same
      exact absurd digit (by decide)
  case h_3 => rfl

/-- A year outside the four digits has its sign, so its digits end at the mark behind them. -/
theorem year?_yearText (year : Int) {mark : Char} (stop : mark.isDigit = false) (rest : List Char)
    : year? (yearText year ++ mark :: rest) = some (year, mark :: rest) := by
  by_cases common : 0 ≤ year ∧ year ≤ 9999
  · have read : number? (some 4) (padded 4 year.natAbs ++ mark :: rest)
        = some (year.natAbs, mark :: rest) :=
      number?_padded (by omega) (by omega) _
    have size : (year.natAbs : Int) = year := by omega
    obtain ⟨c, tail, digits, digit⟩ := exists_padded_eq 4 year.natAbs
    rw [digits] at read
    rw [yearText, if_pos common, digits, List.cons_append, year?_cons_of_isDigit digit,
      ← List.cons_append, read]
    simp only [Option.map_some, size]
  · have read := number?_none_padded 4 year.natAbs stop rest
    rw [yearText, if_neg common]
    by_cases negative : year < 0
    · have size : -(year.natAbs : Int) = year := by omega
      rw [if_pos negative, List.cons_append, year?, skipBlank_cons_of_not_blank _ (by decide)]
      simp only [read, Option.map_some, size]
    · have size : (year.natAbs : Int) = year := by omega
      rw [if_neg negative, List.cons_append, year?, skipBlank_cons_of_not_blank _ (by decide)]
      simp only [read, Option.map_some, size]

/-- A valid date is read as it is written. -/
theorem date?_dateText {d : Date} (valid : d.isValid) (rest : List Char)
    : date? (dateText d ++ rest) = some (d, rest) := by
  obtain ⟨-, month_le, -, day_le⟩ := (Date.isValid_iff d).mp valid
  have month_lt : d.month < 100 := by omega
  have day_lt : d.day < 100 := by
    have longest := Date.daysInMonth_le d.year d.month
    omega
  simp [dateText, date?, year?_yearText, afterMark?_cons, pair?_padded, month_lt, day_lt,
    show isBlank '-' = false by decide, show '-'.isDigit = false by decide]

/-- A fraction is read up to the mark behind it. -/
theorem fraction?_fraction {nano : Nat} (fits : nano < 1000000000) {mark : Char}
    (stop : mark.isDigit = false) (point : mark ≠ '.') (rest : List Char)
    : fraction? (fraction nano ++ mark :: rest) = some (nano, mark :: rest) := by
  have digits {width n : Nat} (positive : 0 < width) (narrow : width ≤ 9) (small : n < 10 ^ width)
      (value : 10 ^ (9 - width) * n = nano)
      : fraction? ('.' :: padded width n ++ mark :: rest) = some (nano, mark :: rest) := by
    have run := takeWhile_isDigit_padded width n stop rest
    have left : (padded width n ++ mark :: rest).dropWhile Char.isDigit = mark :: rest := by
      rw [List.dropWhile_append_of_pos fun _ => isDigit_of_mem_padded]
      simp [stop]
    have read := natOfDigits?_nine positive narrow small
    rw [value] at read
    simp only [List.cons_append, fraction?, run, left, read]
    simp [padded_ne_nil]
  rw [fraction]
  split
  case isTrue none =>
      simp [fraction?, point, none]
  case isFalse =>
      split
      case isTrue millis => exact digits (by omega) (by omega) (by omega) (by omega)
      case isFalse =>
          split
          case isTrue micros => exact digits (by omega) (by omega) (by omega) (by omega)
          case isFalse => exact digits (by omega) (by omega) (by omega) (by omega)

/-- A time of day is read back when its leap second, if it lies in one, ends a minute. -/
theorem clock?_clockText {second nano : Nat} (inDay : second < 86400) (range : nano < 2000000000)
    (shown : 1000000000 ≤ nano → second % 60 = 59) {mark : Char}
    (stop : mark.isDigit = false) (point : mark ≠ '.') (rest : List Char)
    : clock? (clockText second nano ++ mark :: rest) = some ((second, nano), mark :: rest) := by
  have hour_lt : second / 3600 < 100 := by omega
  have minute_lt : second / 60 % 60 < 100 := by omega
  have second_lt : second % 60 + nano / 1000000000 < 100 := by omega
  have read : fraction? (fraction (nano % 1000000000) ++ mark :: rest)
      = some (nano % 1000000000, mark :: rest) :=
    fraction?_fraction (by omega) stop point rest
  have parts : clock? (clockText second nano ++ mark :: rest)
      = some ((second / 3600 * 3600 + second / 60 % 60 * 60
          + min (second % 60 + nano / 1000000000) 59,
        if second % 60 + nano / 1000000000 = 60 then nano % 1000000000 + 1000000000
        else nano % 1000000000), mark :: rest) := by
    simp [clockText, clock?, pair?_padded, afterMark?_cons, hour_lt, minute_lt, second_lt, read,
      show isBlank ':' = false by decide]
    omega
  rw [parts]
  by_cases ordinary : nano < 1000000000
  · have sixty : second % 60 + nano / 1000000000 ≠ 60 := by omega
    have total : second / 3600 * 3600 + second / 60 % 60 * 60
        + min (second % 60 + nano / 1000000000) 59 = second := by omega
    rw [if_neg sixty, total, Nat.mod_eq_of_lt ordinary]
  · have sixty : second % 60 + nano / 1000000000 = 60 := by omega
    have total : second / 3600 * 3600 + second / 60 % 60 * 60
        + min (second % 60 + nano / 1000000000) 59 = second := by omega
    have nanos : nano % 1000000000 + 1000000000 = nano := by omega
    rw [if_pos sixty, total, nanos]

-------------------------------------------------------------------------------
-- What a timestamp tells
-------------------------------------------------------------------------------

/-- Whether an instant is one that clocks show: a leap second follows the last second of a minute
alone. -/
def IsShown (t : Instant) : Prop :=
  t.IsLeap → t.second % 60 = 59

instance (t : Instant) : Decidable t.IsShown :=
  inferInstanceAs (Decidable (1000000000 ≤ t.nano → t.second % 60 = 59))

/-- The instant that clocks show for an instant: a leap second that they do not show is taken for
the second that follows. -/
def shown (t : Instant) : Instant :=
  if unshown : 1000000000 ≤ t.nano ∧ t.second % 60 ≠ 59 then
    { second := t.second + 1
      nano := t.nano - 1000000000
      second_range := by
        have := t.second_range
        omega
      nano_range := by
        have := t.nano_range
        omega }
  else t

/-- An instant that is shown as it is reads back as itself. -/
theorem shown_of_isShown {t : Instant} (isShown : t.IsShown) : t.shown = t :=
  dif_neg fun ⟨leap, second⟩ => second (isShown leap)

/-- What clocks show is shown: a second that follows is no leap second. -/
theorem isShown_shown (t : Instant) : t.shown.IsShown := by
  have range := t.nano_range
  by_cases unshown : 1000000000 ≤ t.nano ∧ t.second % 60 ≠ 59
  · intro leap
    simp only [shown, unshown, dite_true, ne_eq, not_false_eq_true, and_self, IsLeap] at leap
    omega
  · rw [shown, dif_neg unshown]
    simp only [IsShown, IsLeap]
    omega

/-- Just the instants that clocks show are shown as they are. -/
theorem shown_eq_self_iff {t : Instant} : t.shown = t ↔ t.IsShown :=
  ⟨fun same => same ▸ t.isShown_shown, shown_of_isShown⟩

/-- The parts of an instant, read without an offset, make the instant. -/
theorem ofLocal?_date (t : Instant) : ofLocal? t.date (t.secondOfDay, t.nano) 0 = some t := by
  simp [ofLocal?, t.isValid_date, t.year_date_bounds, t.toDayNumber_date,
    make?_eq_some_iff]

/-- A timestamp is read back as its instant when clocks show it, whatever its year and its fraction,
and also in a leap second. -/
theorem ofTimestamp?_timestamp_of_isShown {t : Instant} (isShown : t.IsShown)
    : ofTimestamp? t.timestamp = some t := by
  have ends : 1000000000 ≤ t.nano → t.secondOfDay % 60 = 59 := by
    intro leap
    have last := isShown leap
    rw [secondOfDay]
    omega
  have clock : clock? (clockText t.secondOfDay t.nano ++ ['Z'])
      = some ((t.secondOfDay, t.nano), ['Z']) :=
    clock?_clockText t.secondOfDay_lt t.nano_range ends (by decide) (by decide) []
  have zone : offset? (skipBlank ['Z']) = some (0, []) := by decide
  simp only [ofTimestamp?, timestamp, String.toList_ofList, List.append_assoc, List.cons_append,
    date?_dateText t.isValid_date, Option.bind_eq_bind, Option.bind_some, clock, zone]
  exact ofLocal?_date t

/-- An instant is told as clocks show it: both are on one day, and in one minute. -/
theorem timestamp_shown (t : Instant) : t.shown.timestamp = t.timestamp := by
  by_cases unshown : 1000000000 ≤ t.nano ∧ t.second % 60 ≠ 59
  · have range := t.nano_range
    have second_eq : t.shown.second = t.second + 1 := by rw [shown, dif_pos unshown]
    have nano_eq : t.shown.nano = t.nano - 1000000000 := by rw [shown, dif_pos unshown]
    have date_eq : t.shown.date = t.date := by
      rw [date, date, second_eq]
      congr 1
      omega
    have clock_eq : t.shown.secondOfDay = t.secondOfDay + 1 := by
      rw [secondOfDay, secondOfDay, second_eq]
      omega
    have minute : t.secondOfDay % 60 ≠ 59 := by
      rw [secondOfDay]
      omega
    have hour_eq : (t.secondOfDay + 1) / 3600 = t.secondOfDay / 3600 := by omega
    have minute_eq : (t.secondOfDay + 1) / 60 % 60 = t.secondOfDay / 60 % 60 := by omega
    have told_eq : (t.secondOfDay + 1) % 60 + (t.nano - 1000000000) / 1000000000
        = t.secondOfDay % 60 + t.nano / 1000000000 := by omega
    have fraction_eq : (t.nano - 1000000000) % 1000000000 = t.nano % 1000000000 := by omega
    simp only [timestamp, clockText, date_eq, clock_eq, nano_eq, hour_eq, minute_eq, told_eq,
      fraction_eq]
  · rw [shown, dif_neg unshown]

/-- A timestamp is read as the instant that clocks show for its own. -/
theorem ofTimestamp?_timestamp (t : Instant) : ofTimestamp? t.timestamp = some t.shown :=
  t.timestamp_shown ▸ ofTimestamp?_timestamp_of_isShown t.isShown_shown

-------------------------------------------------------------------------------
-- What is read
-------------------------------------------------------------------------------

/-- A fraction is less than a second, since nine of its digits count. -/
theorem lt_of_fraction? {s rest : List Char} {nano : Nat} (read : fraction? s = some (nano, rest))
    : nano < 1000000000 := by
  simp only [fraction?] at read
  split at read
  case h_1 =>
      split at read
      case isTrue => cases read
      case isFalse =>
          obtain ⟨n, value, same⟩ := Option.map_eq_some_iff.mp read
          cases same
          exact Nat.lt_of_lt_of_le (natOfDigits?_lt value)
            (Nat.pow_le_pow_right (by decide) (List.length_take_le _ _))
  case h_2 =>
      cases read
      decide

/-- A time of day with a billion nanoseconds was the second 60, and so the last of its minute. -/
theorem last_of_clock? {s rest : List Char} {second nano : Nat}
    (read : clock? s = some ((second, nano), rest)) (leap : 1000000000 ≤ nano)
    : second % 60 = 59 := by
  simp only [clock?, Option.bind_eq_bind, Option.bind_eq_some_iff] at read
  obtain ⟨hour, -, _, -, minute, -, _, -, last, -, part, fraction_read, read⟩ := read
  have small := lt_of_fraction? fraction_read
  split at read
  case isTrue =>
      cases read
      split at leap <;> omega
  case isFalse => cases read

/-- Offsets are in whole minutes. -/
theorem offsetAmount?_mod {s rest : List Char} {amount : Int}
    (read : offsetAmount? s = some (amount, rest))
    : amount % 60 = 0 := by
  simp only [offsetAmount?, Option.bind_eq_bind, Option.bind_eq_some_iff] at read
  obtain ⟨hours, -, minutes, -, read⟩ := read
  split at read
  case isTrue =>
      cases read
      omega
  case isFalse => cases read

/-- Offsets are whole minutes, in whichever form they are written. -/
theorem offset?_mod {s rest : List Char} {offset : Int} (read : offset? s = some (offset, rest))
    : offset % 60 = 0 := by
  simp only [offset?] at read
  split at read
  case isTrue =>
      cases read
      rfl
  case isFalse =>
      split at read
      case h_1 | h_2 =>
          cases read
          rfl
      case h_3 => exact offsetAmount?_mod read
      case h_4 | h_5 =>
          obtain ⟨⟨amount, _⟩, found, same⟩ := Option.map_eq_some_iff.mp read
          have whole := offsetAmount?_mod found
          cases same
          omega
      case h_6 => cases read

/-- What is read of a time of day and an offset is an instant that clocks show: the leap second that
a clock may show stands at the end of a minute, and offsets are in whole minutes. -/
theorem isShown_of_ofLocal? {s rest zone zone' : List Char} {date : Date} {clock : Nat × Nat}
    {offset : Int} {t : Instant} (clock_read : clock? s = some (clock, rest))
    (offset_read : offset? zone = some (offset, zone')) (made : ofLocal? date clock offset = some t)
    : t.IsShown := by
  have whole := offset?_mod offset_read
  simp only [ofLocal?] at made
  split at made
  case isFalse => cases made
  case isTrue =>
      obtain ⟨second_eq, nano_eq⟩ := make?_eq_some_iff.mp made
      intro leap
      have last := last_of_clock? clock_read (nano_eq ▸ leap)
      omega

/-- What is read of a timestamp is an instant that clocks show, whichever mark stands before the
time of day. -/
theorem isShown_of_ofTimestamp? {s : String} {t : Instant} (read : ofTimestamp? s = some t)
    : t.IsShown := by
  simp only [ofTimestamp?, Option.bind_eq_bind] at read
  obtain ⟨⟨date, marked⟩, -, read⟩ := Option.bind_eq_some_iff.mp read
  split at read
  case h_1 | h_2 | h_3 =>
      simp only [Option.bind_some, Option.bind_eq_some_iff] at read
      obtain ⟨_, clock_read, _, offset_read, read⟩ := read
      split at read
      case isTrue => exact isShown_of_ofLocal? clock_read offset_read read
      case isFalse => cases read
  case h_4 => cases read

/-- Just the instants that clocks show are read of some timestamp. -/
theorem exists_ofTimestamp?_iff {t : Instant} : (∃ s, ofTimestamp? s = some t) ↔ t.IsShown :=
  ⟨fun ⟨_, read⟩ => isShown_of_ofTimestamp? read,
    fun isShown => ⟨t.timestamp, ofTimestamp?_timestamp_of_isShown isShown⟩⟩

end Instant

end Time

end Almanac
