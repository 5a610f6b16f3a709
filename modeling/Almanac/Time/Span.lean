import Almanac.Text.Numeral

/-! Signed spans of time in nanoseconds, with the limits, the unit and the text that events use. -/

namespace Almanac.Time

/-- A signed count of nanoseconds, at most 2^63 - 1 milliseconds long in either direction. -/
structure Span where
  nanos : Int
  bounded : -9223372036854775807000000 ≤ nanos ∧ nanos ≤ 9223372036854775807000000
  deriving DecidableEq, Repr

namespace Span

def zero : Span :=
  ⟨0, by omega⟩

instance : Inhabited Span :=
  ⟨zero⟩

/-- The span of a count of nanoseconds, when it is not too long. -/
def ofNanos? (nanos : Int) : Option Span :=
  if h : -9223372036854775807000000 ≤ nanos ∧ nanos ≤ 9223372036854775807000000 then
    some ⟨nanos, h⟩
  else
    none

/-- Spans are ordered by their length with its sign. -/
instance : Ord Span :=
  ⟨fun a b => compare a.nanos b.nanos⟩

/-- A count that a signed 64-bit word holds. -/
def fitsWord (n : Int) : Bool :=
  -9223372036854775808 ≤ n && n ≤ 9223372036854775807

/-- The whole microseconds of a span, counted toward zero. -/
def wholeMicros (s : Span) : Int :=
  s.nanos.tdiv 1000

/-- The whole microseconds of a span, when a signed 64-bit word holds them. -/
def micros? (s : Span) : Option Int :=
  if fitsWord s.wholeMicros then some s.wholeMicros else none

/-- The span of a count of microseconds that a signed 64-bit word holds. -/
def ofMicros? (micros : Int) : Option Span :=
  if fitsWord micros then ofNanos? (micros * 1000) else none

/-- A span cut to whole microseconds toward zero. One whose microseconds exceed a signed 64-bit
word is kept whole. -/
def truncate (s : Span) : Span :=
  (s.micros?.bind ofMicros?).getD s

/-- The whole seconds of a span, counted toward zero. -/
def wholeSeconds (s : Span) : Int :=
  s.nanos.tdiv 1000000000

/-- The text of a span: `P0D` for none, else its sign, its seconds and the fraction it needs. -/
def text (s : Span) : String :=
  let nanos := s.nanos.natAbs
  let sign := if s.nanos < 0 then "-" else ""
  if nanos = 0 then "P0D"
  else
    sign ++ "PT" ++ toString (nanos / 1000000000)
      ++ .ofList (Text.trimmedFraction 9 (nanos % 1000000000)) ++ "S"

instance : ToString Span :=
  ⟨text⟩

/-- A span in range is read back from its nanoseconds. -/
theorem ofNanos?_nanos (s : Span) : ofNanos? s.nanos = some s := by
  simp [ofNanos?, s.bounded]

end Span

end Almanac.Time
