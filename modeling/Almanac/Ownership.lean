import Almanac.Period
import Almanac.Store.Call

/-! What owners may do with events.
Every operation on an existing event first fetches it and compares owners. Each operation is a
process of store calls, so others may act between its calls.
-/

namespace Almanac

open Time Query Store

/-- Why an owner's operation is refused or fails. -/
inductive AccessError where
  | notFound (id : Uuid)
  | denied (id : Uuid)
  | store (cause : StoreError)
  deriving DecidableEq, Repr

namespace AccessError

/-- The text of a refusal or failure. -/
def message : AccessError → String
  | .notFound id => s!"event not found: {id}"
  | .denied id => s!"access denied to event {id}"
  | .store cause => cause.message

/-- A store's refusal or failure, as owners see it. -/
def ofStore : StoreError → AccessError
  | .notFound id => .notFound id
  | cause => .store cause

end AccessError

namespace Ownership

/-- An operation of an owner: store calls that end in a result or a refusal. -/
abbrev Operation (α : Type) := Process Call Call.Answer (Except AccessError α)

/-- A store call whose failure ends the operation. -/
def call {α : Type} (c : Call) (next : c.Result → Operation α) : Operation α :=
  .ask c fun
    | .ok result => next result
    | .error cause => .done (.error (.ofStore cause))

/-- Goes on with an event that belongs to the owner. -/
def fetch {α : Type} (id owner : Uuid) (next : Event → Operation α) : Operation α :=
  call (.get id) fun e => if e.owner = owner then next e else .done (.error (.denied id))

/-- Adds an event of an owner, with no notification recorded. -/
def create (owner : Uuid) (e : Event) : Operation Event :=
  call (.add { e with owner, notified := none }) fun stored => .done (.ok stored)

/-- The event of an identifier, if it belongs to the owner. -/
def get (id owner : Uuid) : Operation Event :=
  fetch id owner fun e => .done (.ok e)

/-- Replaces an event of an owner. Its identifier, its owner and its recorded notification stay. -/
def update (id owner : Uuid) (e : Event) : Operation Event :=
  fetch id owner fun current =>
    call (.update { e with id, owner, notified := current.notified }) fun _ =>
      call (.get id) fun stored => .done (.ok stored)

def delete (id owner : Uuid) : Operation Unit :=
  fetch id owner fun _ => call (.delete id) fun _ => .done (.ok ())

/-- The events of an owner that start in a window, both ends included, by start and then by end. -/
def listBetween (owner : Uuid) (first last : Instant) : Operation (List Event) :=
  call
    (.query
      [.of .owner .eq (.one .identifier owner), .of .start .ge (.one .instant first),
        .of .start .le (.one .instant last)]
      [.ascending .start, .ascending .finish])
    fun events => .done (.ok events)

/-- The events of an owner that start in the period from an instant on. -/
def listFor (owner : Uuid) (first : Instant) (period : Period) : Operation (List Event) :=
  listBetween owner first (period.lastOf first)

end Ownership

end Almanac
