import Almanac.Proofs.Sql.Grammar
import Almanac.Proofs.Text.ByteOrder
import Almanac.Query.Operand

/-! What statements on the table of events do.
Rows hold the values of events as they are, and parameters stand for operands as they are. Tests
have three truth values, and only rows whose condition is true are meant. A statement whose operands
do not fit its tests is refused. Rows may come in any order that the sort keys allow.
-/

namespace Almanac.Sql

open Query

/-- The outcome of a test, which is unknown where an unset value takes part. -/
inductive Truth where
  | yes
  | no
  | unknown
  deriving DecidableEq, Repr

namespace Truth

def of : Option Bool → Truth
  | some true => .yes
  | some false => .no
  | none => .unknown

def and : Truth → Truth → Truth
  | .no, _ | _, .no => .no
  | .yes, .yes => .yes
  | _, _ => .unknown

def or : Truth → Truth → Truth
  | .yes, _ | _, .yes => .yes
  | .no, .no => .no
  | _, _ => .unknown

@[simp]
theorem of_eq_yes {answer : Option Bool} : of answer = .yes ↔ answer = some true := by
  rcases answer with _ | _ | _ <;> simp [of]

@[simp]
theorem and_eq_yes {a b : Truth} : a.and b = .yes ↔ a = .yes ∧ b = .yes := by
  cases a <;> cases b <;> simp [and]

@[simp]
theorem or_eq_yes {a b : Truth} : a.or b = .yes ↔ a = .yes ∨ b = .yes := by
  cases a <;> cases b <;> simp [or]

end Truth

/-- What a statement is run with: the collation of the database, and the operands that the
parameters stand for. -/
structure Context where
  collation : String → String → Ordering
  operands : List Operand

/-- How two values of a column compare. Identifiers compare by their bytes, and so do texts under
the collation of bytes. -/
def compareValues (context : Context) (bytewise : Bool)
    : (k : Kind) → k.Carrier → k.Carrier → Ordering
  | .identifier => fun a b => Text.compareBytes a.bytes b.bytes
  | .text => fun a b =>
      if bytewise then Text.compareBytes (Text.Utf8.encode a.toList) (Text.Utf8.encode b.toList)
      else context.collation a b
  | .instant => fun a b => Ord.compare (α := Time.Instant) a b
  | .span => fun a b => Ord.compare (α := Time.Span) a b

def Context.operand? (context : Context) : (parameter : Nat) → Option Operand
  | 0 => none
  | n + 1 => context.operands[n]?

/-- An operand as one value of a kind. -/
def value? (kind : Kind) : Operand → Option kind.Carrier
  | .one other value => if h : other = kind then some (h ▸ value) else none
  | .set _ _ => none

def members? (kind : Kind) : Operand → Option (List kind.Carrier)
  | .one _ _ => none
  | .set other members => if h : other = kind then some (h ▸ members) else none

/-- Whether a comparison accepts how its left side compares with its right side. -/
def Comparison.accepts : Comparison → Ordering → Bool
  | .equal, o => o = .eq
  | .different, o => o ≠ .eq
  | .less, o => o = .lt
  | .atMost, o => o ≠ .gt
  | .greater, o => o = .gt
  | .atLeast, o => o ≠ .lt

/-- Whether a comparison holds between a column of a row and a value; unknown when the column is
unset. -/
def Column.test (context : Context) (column : Column) (comparison : Comparison) (row : Event)
    (value : column.field.kind.Carrier) : Truth :=
  .of ((column.field.value? row).map fun actual =>
    comparison.accepts (compareValues context column.bytewise column.field.kind actual value))

/-- The truth of a condition on a row, when the operands fit it. An array is compared with member by
member. -/
def Expr.truth? (context : Context) (row : Event) : Expr → Option Truth
  | .compares column comparison n =>
      ((context.operand? n).bind (value? column.field.kind)).map
        (column.test context comparison row)
  | .any column comparison n =>
      ((context.operand? n).bind (members? column.field.kind)).map fun members =>
        members.foldr (fun member truth => (column.test context comparison row member).or truth) .no
  | .all column comparison n =>
      ((context.operand? n).bind (members? column.field.kind)).map fun members =>
        members.foldr (fun member truth => (column.test context comparison row member).and truth)
          .yes
  | .isNotNull column => some (.of (some (column.field.value? row).isSome))
  | .both left right =>
      (left.truth? context row).bind fun l => (right.truth? context row).map fun r => l.and r

/-- The truth of a restriction on a row; without one every row is meant. -/
def restrictionTruth? (context : Context) (restriction : Option Expr) (row : Event)
    : Option Truth :=
  match restriction with
  | none => some .yes
  | some condition => condition.truth? context row

/-- How two rows compare under a sort key. Where unset values come does not depend on the
direction. -/
def Key.compare (context : Context) (key : Key) (a b : Event) : Ordering :=
  match key.column.field.value? a, key.column.field.value? b with
  | none, none => .eq
  | none, some _ => if key.nullsFirst then .lt else .gt
  | some _, none => if key.nullsFirst then .gt else .lt
  | some x, some y =>
      let order := compareValues context key.column.bytewise key.column.field.kind x y
      if key.descending then order.swap else order

def compareKeys (context : Context) : List Key → Event → Event → Ordering
  | [], _, _ => .eq
  | key :: keys, a, b => (key.compare context a b).then (compareKeys context keys a b)

/-- A list of rows that a statement may return from a table that has `rows` in some order. Every
field is among the columns, so a row is the event that it holds. -/
structure Select.Answers (context : Context) (select : Select) (rows result : List Event)
    : Prop where
  columns : ∀ field, field ∈ select.columns
  judged : ∀ row ∈ rows, (restrictionTruth? context select.condition row).isSome
  meant : result.Perm
    (rows.filter fun row => restrictionTruth? context select.condition row = some .yes)
  sorted : result.Pairwise fun a b => compareKeys context select.keys a b ≠ .gt

/-- A list of rows that a statement may remove from a table that has `rows` in some order. -/
structure Delete.Removes (context : Context) (delete : Delete) (rows removed : List Event)
    : Prop where
  judged : ∀ row ∈ rows, (restrictionTruth? context delete.condition row).isSome
  meant : removed.Perm
    (rows.filter fun row => restrictionTruth? context delete.condition row = some .yes)

end Almanac.Sql
