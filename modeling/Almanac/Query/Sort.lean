import Almanac.Query.Condition

/-! Sorting events by several fields.
The first field on which two events differ decides. An unset field comes before a set one when
ascending, after it when descending. Events that compare equal keep their order.
-/

namespace Almanac.Query

/-- The direction of a sort key. -/
inductive Direction where
  | ascending
  | descending
  deriving DecidableEq, Repr

namespace Direction

/-- How statements write a direction. -/
def symbol : Direction → String
  | .ascending => "ASC"
  | .descending => "DESC"

/-- How documents name a direction. -/
def name : Direction → String
  | .ascending => "asc"
  | .descending => "desc"

def ofName? : String → Option Direction
  | "asc" => some .ascending
  | "desc" => some .descending
  | _ => none

/-- Reads a direction in either case, any blanks around it. -/
def ofText (s : String) : Except QueryError Direction :=
  match (Text.trim s).toUpper with
  | "ASC" => .ok .ascending
  | "DESC" => .ok .descending
  | _ => .error (.unsupportedDirection s)

def orient : Direction → Ordering → Ordering
  | .ascending, o => o
  | .descending, o => o.swap

end Direction

/-- A field to sort by, and the direction. -/
structure SortKey where
  field : Field
  direction : Direction
  deriving DecidableEq, Repr

def SortKey.ascending (field : Field) : SortKey :=
  ⟨field, .ascending⟩

/-- How two events compare in one field; an unset field comes first. -/
def compareField (f : Field) (a b : Event) : Ordering :=
  match f.value? a, f.value? b with
  | none, none => .eq
  | none, some _ => .lt
  | some _, none => .gt
  | some x, some y => f.kind.compare x y

/-- How two events compare under one sort key. -/
def SortKey.compare (key : SortKey) (a b : Event) : Ordering :=
  key.direction.orient (compareField key.field a b)

/-- How two events compare under sort keys: the first key that tells them apart decides. -/
def compareBy : List SortKey → Event → Event → Ordering
  | [], _, _ => .eq
  | key :: keys, a, b => (key.compare a b).then (compareBy keys a b)

/-- Events in the order of the sort keys; those that compare equal keep their order. -/
def sortBy (keys : List SortKey) (events : List Event) : List Event :=
  events.mergeSort fun a b => compareBy keys a b ≠ .gt

/-- Sorting only rearranges. -/
theorem sortBy_perm (keys : List SortKey) (events : List Event)
    : (sortBy keys events).Perm events :=
  List.mergeSort_perm _ _

end Almanac.Query
