import Almanac.Query.Field

/-! Operands: one value, or a set of values of one kind. -/

namespace Almanac.Query

/-- What a condition compares a field with. -/
inductive Operand where
  | one (kind : Kind) (value : kind.Carrier)
  | set (kind : Kind) (members : List kind.Carrier)

/-- The shape of an operand: its kind, and whether it is a set. -/
structure Shape where
  kind : Kind
  isSet : Bool
  deriving DecidableEq, Repr

/-- How messages describe a shape. -/
def Shape.text (s : Shape) : String :=
  if s.isSet then "set of " ++ s.kind.label else s.kind.label

namespace Operand

def shape : Operand → Shape
  | .one kind _ => ⟨kind, false⟩
  | .set kind _ => ⟨kind, true⟩

/-- An operand as stores keep values: instants and spans in whole microseconds. -/
def truncate : Operand → Operand
  | .one kind value => .one kind (kind.truncate value)
  | .set kind members => .set kind (members.map kind.truncate)

/-- How a value compares with an operand: not at all with one of another kind, nor with a set. -/
def compare? (kind : Kind) (actual : kind.Carrier) : Operand → Option Ordering
  | .one other value =>
      if h : other = kind then some (kind.compare actual (h ▸ value)) else none
  | .set _ _ => none

/-- Whether an operand is a set of the value's kind that has the value as a member. -/
def contains (kind : Kind) (actual : kind.Carrier) : Operand → Bool
  | .one _ _ => false
  | .set other members =>
      if h : other = kind then decide (actual ∈ (h ▸ members : List kind.Carrier)) else false

end Operand

end Almanac.Query
