import Almanac.Query.Operand

/-! The parameters that travel beside a statement.
Leads are kept in a column of signed 64-bit words of microseconds, so spans travel as such words.
-/

namespace Almanac

open Query Time

/-- A span as a word of microseconds. One that has more of them than a word holds goes as the word
at its end. -/
def Time.Span.word (s : Span) : Int :=
  s.micros?.getD (if s.nanos < 0 then -9223372036854775808 else 9223372036854775807)

namespace Query.Kind

/-- What values of a kind travel as. -/
def Bound : Kind → Type
  | .identifier => Uuid
  | .text => String
  | .instant => Instant
  | .span => Int

/-- A value as it travels; a span is cut first. -/
def bound : (k : Kind) → k.Carrier → k.Bound
  | .identifier => fun v => v
  | .text => fun v => v
  | .instant => fun v => v
  | .span => fun s => (Span.truncate s).word

end Query.Kind

namespace Store

/-- What a number in a statement stands for. -/
inductive Parameter where
  | one (kind : Kind) (value : kind.Bound)
  | set (kind : Kind) (members : List kind.Bound)

def Parameter.ofOperand : Operand → Parameter
  | .one kind value => .one kind (kind.bound value)
  | .set kind members => .set kind (members.map kind.bound)

/-- The lead of an event as its column keeps it. -/
def leadColumn (e : Event) : Int :=
  e.lead.word

end Store

end Almanac
