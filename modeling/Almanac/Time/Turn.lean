/-! Turns: when each of many that wait goes on.
Only one goes on at once. What waits for one time goes on in the order in which it began to wait.
-/

namespace Almanac.Time

/-- When something goes on: at a time in milliseconds and, of what goes on at that time, by its
place. Places are given out in the order in which things begin to wait. -/
structure Turn where
  time : Nat
  place : Nat
  deriving DecidableEq, Repr

namespace Turn

/-- The turn of a place after some milliseconds. -/
def after (t : Turn) (millis : Nat) : Turn :=
  { t with time := t.time + millis }

/-- The turn that comes first, by time and then by place. -/
def first (a b : Turn) : Turn :=
  if b.time < a.time ∨ b.time = a.time ∧ b.place < a.place then b else a

instance : Min Turn :=
  ⟨first⟩

end Turn

end Almanac.Time
