import Almanac.Time.Span

/-! Delays: how long a setting asks to wait, never negative. -/

namespace Almanac.Time

/-- A count of nanoseconds to wait. -/
structure Delay where
  nanos : Nat
  deriving DecidableEq, Repr

namespace Delay

instance : Inhabited Delay :=
  ⟨⟨0⟩⟩

/-- A delay of whole milliseconds. -/
def ofMillis (millis : Nat) : Delay :=
  ⟨millis * 1000000⟩

/-- A delay of whole seconds. -/
def ofSeconds (seconds : Nat) : Delay :=
  ⟨seconds * 1000000000⟩

/-- The whole milliseconds of a delay. -/
def millis (d : Delay) : Nat :=
  d.nanos / 1000000

/-- The whole milliseconds of a delay, when an unsigned 64-bit word holds them. -/
def millis? (d : Delay) : Option Nat :=
  if d.millis ≤ 18446744073709551615 then some d.millis else none

/-- A delay as a span, when it is not too long for one. -/
def span? (d : Delay) : Option Span :=
  Span.ofNanos? d.nanos

/-- The text of a delay: its amount in the largest of the units second, millisecond, microsecond
and nanosecond that it reaches, with the fraction it needs. -/
def text (d : Delay) : String :=
  let inUnit (width unit : Nat) (name : String) : String :=
    toString (d.nanos / unit) ++ .ofList (Text.trimmedFraction width (d.nanos % unit)) ++ name
  if d.nanos ≥ 1000000000 then inUnit 9 1000000000 "s"
  else if d.nanos ≥ 1000000 then inUnit 6 1000000 "ms"
  else if d.nanos ≥ 1000 then inUnit 3 1000 "µs"
  else toString d.nanos ++ "ns"

instance : ToString Delay :=
  ⟨text⟩

/-- A delay given in milliseconds has as many. -/
theorem millis_ofMillis (n : Nat) : (ofMillis n).millis = n := by
  simp [ofMillis, millis]

end Delay

end Almanac.Time
