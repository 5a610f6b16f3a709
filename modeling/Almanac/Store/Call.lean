import Almanac.Process
import Almanac.Store.Statement
import Almanac.Store.Table

/-! Calls on a store.
Each call is one atomic step. A table answers every call; a database beyond reach still refuses
what it checks before it is asked.
-/

namespace Almanac.Store

open Time Query

/-- The calls that stores answer. -/
inductive Call where
  | add (e : Event)
  | update (e : Event)
  | delete (id : Uuid)
  | get (id : Uuid)
  | query (conditions : List Condition) (keys : List SortKey)
  | deleteWhere (conditions : List Condition)
  | mark (ids : List Uuid) (moment : Instant)
  | due (now : Instant)

/-- The calls without their arguments. -/
inductive Operation where
  | add
  | update
  | delete
  | get
  | query
  | deleteWhere
  | mark
  | due
  deriving DecidableEq, Repr

namespace Call

def operation : Call → Operation
  | .add _ => .add
  | .update _ => .update
  | .delete _ => .delete
  | .get _ => .get
  | .query _ _ => .query
  | .deleteWhere _ => .deleteWhere
  | .mark _ _ => .mark
  | .due _ => .due

/-- What a successful call gives. -/
def Result : Call → Type
  | .add _ | .get _ => Event
  | .update _ | .delete _ => Unit
  | .query _ _ | .due _ => List Event
  | .deleteWhere _ | .mark _ _ => Nat

def Answer (c : Call) : Type :=
  Except StoreError c.Result

/-- What a call comes to before a database is asked: a refusal, a result that needs no database, or
nothing yet. -/
def beforeDatabase : (c : Call) → Except StoreError (Option c.Result)
  | .add e => (prepare e).map fun _ => none
  | .update e => (prepare e).map fun _ => none
  | .delete _ => .ok none
  | .get _ => .ok none
  | .query conditions keys => (Statement.ofQuery conditions keys).map fun _ => none
  | .deleteWhere conditions => (Statement.ofDeletion conditions).map fun _ => none
  | .mark ids _ => .ok (if ids.isEmpty then some (0 : Nat) else none)
  | .due _ => .ok none

end Call

/-- An answer that leaves the table as it is. -/
def Table.unchanged {α : Type} (t : Table) (answer : Except StoreError α)
    : Except StoreError α × Table :=
  (answer, t)

/-- An answer with the table after it; a refusal leaves the table as it is. -/
def Table.changed {α : Type} (t : Table) (answer : Except StoreError (α × Table))
    : Except StoreError α × Table :=
  match answer with
  | .ok (result, t) => (.ok result, t)
  | .error e => (.error e, t)

/-- The answer of a table to a call. An added event is filed under the given identifier, which must
not be in use. -/
def Table.answer (fresh : Uuid) : (c : Call) → Table → c.Answer × Table
  | .add e, t => t.changed (t.add fresh e)
  | .update e, t => t.changed ((t.update e).map fun t => ((), t))
  | .delete id, t => t.changed ((t.delete id).map fun t => ((), t))
  | .get id, t => t.unchanged (t.get id)
  | .query conditions keys, t => t.unchanged (t.query conditions keys)
  | .deleteWhere conditions, t => t.changed (t.deleteWhere conditions)
  | .mark ids moment, t => t.changed (.ok (t.mark ids moment))
  | .due now, t => t.unchanged (.ok (t.due now))

end Almanac.Store
