import Almanac.Time.Instant

/-! Listing windows: a day, a week or a month from a given instant. -/

namespace Almanac

open Time

/-- The length of a listing window. -/
inductive Period where
  | day
  | week
  | month
  deriving DecidableEq, Repr

namespace Period

def name : Period → String
  | .day => "day"
  | .week => "week"
  | .month => "month"

def ofName? : String → Option Period
  | "day" => some .day
  | "week" => some .week
  | "month" => some .month
  | _ => none

/-- A text that names no period; it is kept in lower case. -/
structure Unknown where
  text : String
  deriving DecidableEq, Repr

def Unknown.message (e : Unknown) : String :=
  s!"unknown period: {e.text}"

/-- Reads a period in either case. -/
def ofText (s : String) : Except Unknown Period :=
  match ofName? s.toLower with
  | some period => .ok period
  | none => .error ⟨s.toLower⟩

/-- The start of the next window, when it is representable. -/
def next? (p : Period) (start : Instant) : Option Instant :=
  match p with
  | .day => start.shift? 86400000000000
  | .week => start.shift? 604800000000000
  | .month => start.nextMonth?

/-- The last instant of a window: one microsecond before the next window, or the latest instant
when there is no next window. -/
def lastOf (p : Period) (start : Instant) : Instant :=
  ((p.next? start).bind (·.shift? (-1000))).getD .latest

end Period

end Almanac
