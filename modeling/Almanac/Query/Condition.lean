import Almanac.Query.Operand
import Almanac.Text.Blank

/-! Conditions on events.
A condition compares a field with an operand. Every comparison with an unset field is false, also
the negated ones. A condition whose operand has another shape than its field and operator ask for
is refused before events are looked at.
-/

namespace Almanac.Query

/-- The operators of conditions. -/
inductive Operator where
  | eq
  | ne
  | lt
  | le
  | gt
  | ge
  | isIn
  | notIn
  deriving DecidableEq, Repr

namespace Operator

/-- Whether the operator compares with a set. -/
def takesSet : Operator → Bool
  | .isIn | .notIn => true
  | _ => false

/-- How messages and statements write an operator. -/
def symbol : Operator → String
  | .eq => "="
  | .ne => "!="
  | .lt => "<"
  | .le => "<="
  | .gt => ">"
  | .ge => ">="
  | .isIn => "IN"
  | .notIn => "NOT IN"

/-- Whether an operator accepts how a field's value compares with one value. -/
def accepts : Operator → Ordering → Bool
  | .eq, o => o = .eq
  | .ne, o => o ≠ .eq
  | .lt, o => o = .lt
  | .le, o => o ≠ .gt
  | .gt, o => o = .gt
  | .ge, o => o ≠ .lt
  | .isIn, _ | .notIn, _ => false

end Operator

/-- Why a query is refused. -/
inductive QueryError where
  /-- No operator is written so. -/
  | unsupportedOperator (text : String)
  /-- No direction is written so. -/
  | unsupportedDirection (text : String)
  /-- The operand has another shape than the field and the operator ask for. -/
  | incomparable (field : Field) (operator : Operator) (operand : Shape)
  deriving DecidableEq, Repr

def QueryError.message : QueryError → String
  | .unsupportedOperator text => s!"unsupported operator: '{text}'"
  | .unsupportedDirection text => s!"unsupported sort direction: '{text}'"
  | .incomparable field operator operand =>
      s!"incomparable type: {field.name} ({field.kind.label}) {operator.symbol} {operand.text}"

/-- Reads an operator: its words in either case, any blanks between and around them. -/
def Operator.ofText (s : String) : Except QueryError Operator :=
  match (Text.words s).map fun word => word.map Char.toUpper with
  | [['=']] => .ok .eq
  | [['!', '=']] | [['<', '>']] => .ok .ne
  | [['<']] => .ok .lt
  | [['<', '=']] => .ok .le
  | [['>']] => .ok .gt
  | [['>', '=']] => .ok .ge
  | [['I', 'N']] => .ok .isIn
  | [['N', 'O', 'T'], ['I', 'N']] => .ok .notIn
  | _ => .error (.unsupportedOperator s)

/-- A comparison of a field with an operand. -/
structure Condition where
  field : Field
  operator : Operator
  operand : Operand

namespace Condition

/-- A condition on stored events: its operand is cut to whole microseconds as their fields are. -/
def of (field : Field) (operator : Operator) (operand : Operand) : Condition :=
  { field, operator, operand := operand.truncate }

/-- The shape that the operand must have. -/
def expected (c : Condition) : Shape :=
  ⟨c.field.kind, c.operator.takesSet⟩

/-- A condition with the operand that its field and operator ask for. -/
def validate (c : Condition) : Except QueryError Unit :=
  if c.operand.shape = c.expected then .ok ()
  else .error (.incomparable c.field c.operator c.operand.shape)

/-- Whether an event meets a condition. An unset field meets none. -/
def holds (c : Condition) (e : Event) : Bool :=
  match c.field.value? e with
  | none => false
  | some actual =>
      match c.operator with
      | .isIn => c.operand.contains c.field.kind actual
      | .notIn => !c.operand.contains c.field.kind actual
      | operator => (c.operand.compare? c.field.kind actual).any operator.accepts

/-- Whether an event meets a condition, which is checked first. -/
def matchesEvent (c : Condition) (e : Event) : Except QueryError Bool :=
  c.validate.map fun _ => c.holds e

end Condition

/-- Checks conditions in order; the first that is refused decides. -/
def validateAll : List Condition → Except QueryError Unit
  | [] => .ok ()
  | c :: cs => c.validate.bind fun _ => validateAll cs

/-- Whether an event meets every condition. -/
def holdsAll (cs : List Condition) (e : Event) : Bool :=
  cs.all (·.holds e)

/-- Whether an event meets every condition; all are checked first. -/
def matchesAll (cs : List Condition) (e : Event) : Except QueryError Bool :=
  (validateAll cs).map fun _ => holdsAll cs e

/-- The events that meet every condition, in their order; all conditions are checked first. -/
def select (cs : List Condition) (events : List Event) : Except QueryError (List Event) :=
  (validateAll cs).map fun _ => events.filter (holdsAll cs)

/-- No condition refuses nothing. -/
theorem validateAll_nil : validateAll [] = .ok () := rfl

end Almanac.Query
