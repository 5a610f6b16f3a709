import Almanac.Query.Sort
import Almanac.Store.Error

/-! The table of events that a store keeps, in the order of their identifiers.
Every operation is one step: it either refuses and changes nothing or takes effect as a whole.
-/

namespace Almanac.Store

open Time Query

/-- A stored event: in whole microseconds, with a representable instant of notification. -/
def prepare (e : Event) : Except StoreError Event :=
  let e := e.normalize
  match e.notifyAt? with
  | some _ => .ok e
  | none => .error (.outOfRange e.lead e.start)

/-- Stored events in the order of their identifiers. -/
structure Table where
  events : List Event
  deriving DecidableEq, Repr

namespace Table

def empty : Table :=
  ⟨[]⟩

instance : Inhabited Table :=
  ⟨empty⟩

def size (t : Table) : Nat :=
  t.events.length

def find? (t : Table) (id : Uuid) : Option Event :=
  t.events.find? (·.id = id)

/-- Whether an identifier is in use. -/
def contains (t : Table) (id : Uuid) : Bool :=
  t.events.any (·.id = id)

/-- Puts an event before the first one with a greater identifier. -/
def insertInto (e : Event) : List Event → List Event
  | [] => [e]
  | other :: rest => if e.id < other.id then e :: other :: rest else other :: insertInto e rest

/-- Puts an event in the place of the one with its identifier. -/
def replace (t : Table) (e : Event) : Table :=
  ⟨t.events.map fun other => if other.id = e.id then e else other⟩

/-- Files an event under a given identifier, which must not be in use. The event's own identifier is
ignored. -/
def add (t : Table) (fresh : Uuid) (e : Event) : Except StoreError (Event × Table) :=
  (prepare e).map fun e =>
    let e := { e with id := fresh }
    (e, ⟨insertInto e t.events⟩)

/-- Replaces the event with the same identifier. Its owner stays. -/
def update (t : Table) (e : Event) : Except StoreError Table :=
  (prepare e).bind fun e =>
    match t.find? e.id with
    | some stored => .ok (t.replace { e with owner := stored.owner })
    | none => .error (.notFound e.id)

def delete (t : Table) (id : Uuid) : Except StoreError Table :=
  if t.contains id then .ok ⟨t.events.filter (·.id ≠ id)⟩ else .error (.notFound id)

def get (t : Table) (id : Uuid) : Except StoreError Event :=
  match t.find? id with
  | some e => .ok e
  | none => .error (.notFound id)

/-- The events that meet every condition, sorted; ties are in the order of the identifiers. -/
def query (t : Table) (conditions : List Condition) (keys : List SortKey)
    : Except StoreError (List Event) :=
  match select conditions t.events with
  | .ok events => .ok (sortBy keys events)
  | .error cause => .error (.query cause)

/-- Checks the conditions of a bulk deletion: there must be one, and none may be refused. -/
def checkFilter (conditions : List Condition) : Except StoreError Unit :=
  if conditions.isEmpty then .error .emptyFilter
  else (validateAll conditions).mapError .query

/-- Removes the events that meet every condition, and counts them. -/
def deleteWhere (t : Table) (conditions : List Condition) : Except StoreError (Nat × Table) :=
  (checkFilter conditions).map fun _ =>
    let kept := t.events.filter fun e => !holdsAll conditions e
    (t.size - kept.length, ⟨kept⟩)

/-- Whether a notification at an instant is later than the one recorded. -/
def advances (moment : Instant) (e : Event) : Bool :=
  e.notified.all (· < moment)

/-- Records a notification of one event unless a later one is recorded; counts the advance. -/
def markOne (moment : Instant) (state : Nat × Table) (id : Uuid) : Nat × Table :=
  match state.2.find? id with
  | some e =>
      if advances moment e then (state.1 + 1, state.2.replace { e with notified := some moment })
      else state
  | none => state

/-- Records that notifications went out, for the identifiers in turn, and counts the advances.
Identifiers not in use are passed over. -/
def mark (t : Table) (ids : List Uuid) (moment : Instant) : Nat × Table :=
  ids.foldl (markOne moment.truncate) (0, t)

/-- The events that are due, by the instant of their notification, then by identifier. -/
def due (t : Table) (now : Instant) : List Event :=
  (t.events.filter (·.isDue now)).mergeSort fun a b => compare a.notifyAt b.notifyAt ≠ .gt

/-- Looking for due events only rearranges those that are. -/
theorem due_perm (t : Table) (now : Instant)
    : (t.due now).Perm (t.events.filter (·.isDue now)) :=
  List.mergeSort_perm _ _

end Table

end Almanac.Store
