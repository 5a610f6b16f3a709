import Almanac.Text.Blank
import Almanac.Text.Numeral
import Almanac.Time.Instant

/-! Reading timestamps.
The grammar is that of internet timestamps, relaxed: blanks may stand before each part, numbers may
have fewer digits, the offset may lack its colon or read `UTC`, and signed years may be long. The
reader of a part gives what it found and what follows it.
-/

namespace Almanac.Time.Instant

/-- The leading digits of a text, at most `width` of them when a width is given. -/
def number? (width : Option Nat) (s : List Char) : Option (Nat × List Char) :=
  let run := s.takeWhile Char.isDigit
  let digits := (width.map run.take).getD run
  (Text.natOfDigits? digits).map fun n => (n, s.drop digits.length)

/-- A year after blanks: up to four digits, or a sign and any number of them. -/
def year? (s : List Char) : Option (Int × List Char) :=
  match Text.skipBlank s with
  | '-' :: rest => (number? none rest).map fun (n, rest) => (-(n : Int), rest)
  | '+' :: rest => (number? none rest).map fun (n, rest) => ((n : Int), rest)
  | rest => (number? (some 4) rest).map fun (n, rest) => ((n : Int), rest)

/-- A part of one or two digits after blanks. -/
def pair? (s : List Char) : Option (Nat × List Char) :=
  number? (some 2) (Text.skipBlank s)

/-- What follows a mark, before which blanks may stand. -/
def afterMark? (mark : Char) (s : List Char) : Option (List Char) :=
  match Text.skipBlank s with
  | c :: rest => if c = mark then some rest else none
  | [] => none

/-- A fraction of a second in nanoseconds: at least one digit, of which the first nine count. -/
def fraction? (s : List Char) : Option (Nat × List Char) :=
  match s with
  | '.' :: rest =>
      let digits := rest.takeWhile Char.isDigit
      if digits.isEmpty then none
      else
        (Text.natOfDigits? ((digits ++ List.replicate 9 '0').take 9)).map fun n =>
          (n, rest.dropWhile Char.isDigit)
  | _ => some (0, s)

/-- Exactly two digits. -/
def twoDigits? (s : List Char) : Option (Nat × List Char) :=
  match s with
  | a :: b :: rest => (Text.natOfDigits? [a, b]).map fun n => (n, rest)
  | _ => none

/-- The hours and minutes of a signed offset, in seconds. -/
def offsetAmount? (s : List Char) : Option (Int × List Char) := do
  let (hours, s) ← twoDigits? s
  let (minutes, s) ← twoDigits? (s.dropWhile fun c => c = ':' || Text.isBlank c)
  if minutes ≤ 59 ∧ hours * 3600 + minutes * 60 < 86400 then
    some (((hours * 3600 + minutes * 60 : Nat) : Int), s)
  else
    none

/-- An offset from universal time in seconds: a zone letter, the name `UTC`, or a sign with hours
and minutes. The minus sign of mathematics serves as a hyphen. -/
def offset? (s : List Char) : Option (Int × List Char) :=
  if (s.take 3).map Char.toLower = ['u', 't', 'c'] then some (0, s.drop 3)
  else
    match s with
    | 'Z' :: rest | 'z' :: rest => some (0, rest)
    | '+' :: rest => offsetAmount? rest
    | '-' :: rest | '\u2212' :: rest => (offsetAmount? rest).map fun (n, rest) => (-n, rest)
    | _ => none

/-- A date, its parts joined by hyphens. -/
def date? (s : List Char) : Option (Date × List Char) := do
  let (year, s) ← year? s
  let (month, s) ← pair? (← afterMark? '-' s)
  let (day, s) ← pair? (← afterMark? '-' s)
  some (⟨year, month, day⟩, s)

/-- A time of day in seconds and nanoseconds. The second 60 reads as the last second of the minute
with a billion nanoseconds more. -/
def clock? (s : List Char) : Option ((Nat × Nat) × List Char) := do
  let (hour, s) ← pair? s
  let (minute, s) ← pair? (← afterMark? ':' s)
  let (second, s) ← pair? (← afterMark? ':' s)
  let (nano, s) ← fraction? s
  if hour ≤ 23 ∧ minute ≤ 59 ∧ second ≤ 60 then
    some ((hour * 3600 + minute * 60 + min second 59,
      if second = 60 then nano + 1000000000 else nano), s)
  else
    none

/-- The instant of a date and a time of day at an offset from universal time, when both the local
and the universal reading are in range. -/
def ofLocal? (date : Date) (clock : Nat × Nat) (offset : Int) : Option Instant :=
  if date.isValid ∧ -262143 ≤ date.year ∧ date.year ≤ 262142 then
    make? (date.toDayNumber * 86400 + clock.1 - offset) clock.2
  else
    none

def ofTimestamp? (s : String) : Option Instant := do
  let (date, s) ← date? s.toList
  let s ←
    match s with
    | 'T' :: rest | 't' :: rest | ' ' :: rest => some rest
    | _ => none
  let (clock, s) ← clock? s
  let (offset, s) ← offset? (Text.skipBlank s)
  if (Text.skipBlank s).isEmpty then ofLocal? date clock offset else none

end Almanac.Time.Instant
