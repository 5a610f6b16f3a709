import Almanac.Address
import Almanac.Store.Call

/-! A database behind its client.
What the client makes of a request is given with the database; how its outcome becomes the answer of
a store is not. A request that takes longer than it may is given up, and errors of the client are
told apart by whether they concern the connection.
-/

namespace Almanac.Store

open Time Query

/-- Errors of the database client. -/
inductive DatabaseError where
  /-- The line to the server was not opened, or broke. -/
  | io (cause : String)
  /-- The line could not be secured. -/
  | tls (cause : String)
  /-- No connection came free in time. -/
  | poolTimedOut
  | poolClosed
  /-- Any other error, by its text: what the server refused, or sent without its being expected. -/
  | other (text : String)
  deriving DecidableEq, Repr

namespace DatabaseError

/-- The client's text of an error. -/
def message : DatabaseError → String
  | .io cause => s!"error communicating with database: {cause}"
  | .tls cause => s!"error occurred while attempting to establish a TLS connection: {cause}"
  | .poolTimedOut => "pool timed out while waiting for an open connection"
  | .poolClosed => "attempted to acquire a connection on a closed pool"
  | .other text => text

/-- An error of the client as one of the store. -/
def toStoreError (e : DatabaseError) : StoreError :=
  match e with
  | .io _ | .tls _ | .poolTimedOut | .poolClosed => .connection e.message
  | .other _ => .database e.message

end DatabaseError

/-- How something that the client does ends: after some time with a result or an error, or never. -/
abbrev Fate (α : Type) : Type :=
  Option (Delay × Except DatabaseError α)

namespace Fate

variable {α : Type}

/-- The outcome within a time limit. -/
def within (limit : Delay) (fate : Fate α) : Option (Except DatabaseError α) :=
  (fate.filter fun (after, _) => after.nanos ≤ limit.nanos).map Prod.snd

/-- What a store makes of the outcome within a time limit. -/
def timed (limit : Delay) (fate : Fate α) : Except StoreError α :=
  match fate.within limit with
  | some (.ok result) => .ok result
  | some (.error e) => .error e.toStoreError
  | none => .error (.timeout limit)

/-- How long a store waits, at most until the limit. -/
def wait (limit : Delay) (fate : Fate α) : Delay :=
  match fate with
  | some (after, _) => if after.nanos ≤ limit.nanos then after else limit
  | none => limit

end Fate

namespace Call

/-- What the client fetches for a call: rows as events, or the number of rows that were changed. -/
def Rows : Call → Type
  | .add _ => Event
  | .get _ => Option Event
  | .query _ _ | .due _ => List Event
  | .update _ | .delete _ | .deleteWhere _ | .mark _ _ => Nat

/-- No row is found or changed for an identifier that is not in use. -/
def presentRow {α : Type} (id : Uuid) (row : Option α) : Except StoreError α :=
  match row with
  | some row => .ok row
  | none => .error (.notFound id)

/-- What a store answers when the client has fetched what it was asked for. -/
def ofRows : (c : Call) → c.Rows → c.Answer
  | .add _, stored => .ok stored
  | .update e, (changed : Nat) => presentRow e.id (if changed = 0 then none else some ())
  | .delete id, (changed : Nat) => presentRow id (if changed = 0 then none else some ())
  | .get id, found => presentRow id found
  | .query _ _, found => .ok found
  | .deleteWhere _, changed => .ok changed
  | .mark _ _, changed => .ok changed
  | .due _, found => .ok found

end Call

/-- A database as its client shows it, with the time that an operation may take. -/
structure Database where
  limit : Delay
  /-- How the request of a call ends, once it is made. -/
  request : (c : Call) → Fate c.Rows
  /-- How the request for a sign of life ends. -/
  ping : Fate Unit
  /-- How bringing the tables up to date ends, for which there is no time limit, and after how
  long. -/
  migration : Delay × Except DatabaseError Unit
  /-- Whether the connections are closed. -/
  isClosed : Bool := false

namespace Database

/-- The answer to a call: what can be decided before the database is asked, or what the client
makes of the request. -/
def answer (db : Database) (c : Call) : c.Answer :=
  match c.beforeDatabase with
  | .error e => .error e
  | .ok (some result) => .ok result
  | .ok none => ((db.request c).timed db.limit).bind c.ofRows

/-- How long a call waits for the client. -/
def wait (db : Database) (c : Call) : Delay :=
  match c.beforeDatabase with
  | .ok none => (db.request c).wait db.limit
  | _ => ⟨0⟩

/-- A database of which everything asked fails with the same error at once. -/
def failing (e : DatabaseError) : Database :=
  { limit := .ofSeconds 3
    request := fun _ => some (⟨0⟩, .error e)
    ping := some (⟨0⟩, .error e)
    migration := (⟨0⟩, .error e) }

/-- A database whose connections are closed. -/
def closed : Database :=
  { failing .poolClosed with isClosed := true }

/-- A database that cannot be reached. -/
def unreachable : Database :=
  failing (.io Address.beyondReach)

/-- A database that never answers. -/
def silent (limit : Delay) : Database :=
  { limit
    request := fun _ => none
    ping := none
    migration := (limit, .error .poolTimedOut) }

end Database

end Almanac.Store
