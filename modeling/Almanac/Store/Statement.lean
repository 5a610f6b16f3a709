import Almanac.Query.Sort
import Almanac.Store.Error

/-! Queries and bulk deletions as statements of a relational database.
A statement names columns and numbered parameters only; the operands travel beside it.
-/

namespace Almanac.Store

open Query

/-- A test of a row. `parameter` is the number of the operand. -/
inductive RowTest where
  | compares (field : Field) (operator : Operator) (parameter : Nat)
  /-- The column equals a member of the operand. -/
  | equalsAny (field : Field) (parameter : Nat)
  /-- The column differs from every member of the operand. -/
  | differsFromAll (field : Field) (parameter : Nat)
  /-- The column is set and differs from every member of the operand. -/
  | isSetAndDiffersFromAll (field : Field) (parameter : Nat)
  deriving DecidableEq, Repr

/-- The test of a condition. Unset columns are excluded from a negated membership, which would
otherwise hold of them for an empty set. -/
def RowTest.ofCondition (parameter : Nat) (c : Condition) : RowTest :=
  match c.operator with
  | .isIn => .equalsAny c.field parameter
  | .notIn =>
      if c.field.isNullable then .isSetAndDiffersFromAll c.field parameter
      else .differsFromAll c.field parameter
  | operator => .compares c.field operator parameter

/-- The tests of conditions; the operand of the n-th condition is parameter n. -/
def rowTests (conditions : List Condition) : List RowTest :=
  conditions.mapIdx fun i c => .ofCondition (i + 1) c

/-- The operands are counted from 1. -/
theorem rowTests_eq (conditions : List Condition)
    : rowTests conditions = (conditions.zipIdx 1).map fun (c, n) => .ofCondition n c := by
  rw [rowTests, List.mapIdx_eq_zipIdx_map, List.zipIdx_succ]
  simp

/-- A statement on the table of events. -/
inductive Statement where
  /-- The rows that pass every test, sorted; ties are in the order of the identifiers. -/
  | select (tests : List RowTest) (keys : List SortKey)
  /-- Removes the rows that pass every test. -/
  | delete (tests : List RowTest)
  deriving DecidableEq, Repr

namespace Statement

def ofQuery (conditions : List Condition) (keys : List SortKey) : Except StoreError Statement :=
  match validateAll conditions with
  | .ok _ => .ok (.select (rowTests conditions) keys)
  | .error cause => .error (.query cause)

/-- The statement of a bulk deletion, which must have a condition. -/
def ofDeletion (conditions : List Condition) : Except StoreError Statement :=
  if conditions.isEmpty then .error .emptyFilter
  else
    match validateAll conditions with
    | .ok _ => .ok (.delete (rowTests conditions))
    | .error cause => .error (.query cause)

end Statement

/-- A column as comparisons name it. Texts compare by their bytes. -/
def columnText (f : Field) : String :=
  match f.kind with
  | .text => f.name ++ " COLLATE \"C\""
  | _ => f.name

def parameterText (n : Nat) : String :=
  s!"${n}"

/-- An operator between two values as statements write it. -/
def operatorText : Operator → String
  | .ne => "<>"
  | operator => operator.symbol

def RowTest.text : RowTest → String
  | .compares field operator n =>
      s!"{columnText field} {operatorText operator} {parameterText n}"
  | .equalsAny field n => s!"{columnText field} = ANY({parameterText n})"
  | .differsFromAll field n => s!"{columnText field} <> ALL({parameterText n})"
  | .isSetAndDiffersFromAll field n =>
      s!"({columnText field} IS NOT NULL AND {columnText field} <> ALL({parameterText n}))"

/-- The text that restricts a statement to rows that pass every test. -/
def restriction : List RowTest → String
  | [] => ""
  | test :: tests => " WHERE " ++ " AND ".intercalate (test.text :: tests.map RowTest.text)

/-- The text of a sort key. Unset columns come first when ascending. -/
def sortKeyText (key : SortKey) : String :=
  let unset :=
    match key.direction with
    | .ascending => "NULLS FIRST"
    | .descending => "NULLS LAST"
  s!"{columnText key.field} {key.direction.symbol} {unset}, "

/-- The columns of the table, in the order of a record. -/
def columnList : String :=
  ", ".intercalate (Field.all.map Field.name)

def Statement.text : Statement → String
  | .select tests keys =>
      s!"SELECT {columnList} FROM events" ++ restriction tests ++ " ORDER BY "
        ++ String.join (keys.map sortKeyText) ++ "id ASC"
  | .delete tests => "DELETE FROM events" ++ restriction tests

end Almanac.Store
