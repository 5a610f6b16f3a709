import Almanac.Store.Database
import Almanac.Store.Settings

/-! Storage: a table or a database, behind one interface.
Operations can be set to fail, to rehearse outages.
-/

namespace Almanac.Store

open Time Query

/-- Where the events are. -/
inductive Backend where
  | table (t : Table)
  | database (db : Database)

/-- A backend, how many identifiers it issued, the operations set to fail, and how long operations
have waited for an answer in all. -/
structure Storage where
  backend : Backend := .table .empty
  issued : Nat := 0
  outages : List (Operation × StoreError) := []
  waited : Delay := ⟨0⟩

namespace Storage

instance : Inhabited Storage :=
  ⟨{}⟩

/-- Whether the events live only as long as the process. -/
def isDevMode (s : Storage) : Bool :=
  match s.backend with
  | .table _ => true
  | .database _ => false

/-- The number of events that can be counted: none of a database. -/
def size (s : Storage) : Nat :=
  match s.backend with
  | .table t => t.size
  | .database _ => 0

def clear (s : Storage) : Storage :=
  match s.backend with
  | .table _ => { s with backend := .table .empty }
  | .database _ => s

/-- Sets an operation to fail from now on. -/
def breakDown (s : Storage) (op : Operation) (e : StoreError) : Storage :=
  { s with outages := (op, e) :: s.outages }

def heal (s : Storage) : Storage :=
  { s with outages := [] }

/-- Storage after waiting for an answer. -/
def waitFor (s : Storage) (time : Delay) : Storage :=
  { s with waited := ⟨s.waited.nanos + time.nanos⟩ }

/-- The place in the count of issued identifiers of the next one that is not in use. -/
def nextIssue (s : Storage) (t : Table) : Nat :=
  ((List.range (t.size + 1)).map (s.issued + ·)).find? (fun n => !t.contains (.issued n))
    |>.getD s.issued

/-- The answer of storage to a call. -/
def answer (c : Call) (s : Storage) : c.Answer × Storage :=
  match s.outages.lookup c.operation with
  | some e => (.error e, s)
  | none =>
      match s.backend with
      | .table t =>
          let next := s.nextIssue t
          let (answer, t) := Table.answer (.issued next) c t
          let issued := if c.operation = .add then next + 1 else s.issued
          (answer, { s with backend := .table t, issued })
      | .database db => (db.answer c, s.waitFor (db.wait c))

/-- Asks the backend for a sign of life. -/
def ping (s : Storage) : Except StoreError Unit × Storage :=
  match s.backend with
  | .table _ => (.ok (), s)
  | .database db => (db.ping.timed db.limit, s.waitFor (db.ping.wait db.limit))

/-- Brings the database's tables up to date. -/
def migrate (s : Storage) : Except StoreError Unit × Storage :=
  match s.backend with
  | .table _ => (.ok (), s)
  | .database db =>
      let (after, outcome) := db.migration
      (outcome.mapError fun e => .database s!"while executing migrations: {e.message}",
        s.waitFor after)

/-- Whether the connections of a database are closed. -/
def isClosed (s : Storage) : Bool :=
  match s.backend with
  | .table _ => false
  | .database db => db.isClosed

/-- Why the client does not open the database of an address. -/
def openError (s : DatabaseSettings) : DatabaseError :=
  if Address.isAbsolute s.url then .io Address.beyondReach
  else .other s!"error with configuration: {Address.relative}"

/-- Opens storage. A table is opened empty; no database is within reach, and whatever the client's
error is counts as one of the connection. -/
def ofSettings (s : Settings) : Except StoreError Storage :=
  match s.kind with
  | .memory => .ok {}
  | .sql => .error (.connection (openError s.database).message)

end Storage

end Almanac.Store
