import Almanac.Event
import Almanac.Json.Printer
import Almanac.Json.Reader
import Almanac.Json.Record

/-! Events as documents.
Leads are written in whole microseconds, so a lead with too many of them cannot be written.
-/

namespace Almanac

/-- Why a value cannot be written as a document. -/
inductive WriteError where
  /-- A span's microseconds exceed a signed 64-bit word. -/
  | spanTooLong
  /-- A delay's milliseconds exceed an unsigned 64-bit word. -/
  | delayTooLong
  deriving DecidableEq, Repr

def WriteError.message : WriteError → String
  | .spanTooLong => "duration overflows i64 microseconds"
  | .delayTooLong => "duration overflows u64 milliseconds"

namespace Json

/-- A span as a document, in microseconds. -/
def ofSpan (s : Time.Span) : Except WriteError Json :=
  match s.micros? with
  | some micros => .ok (int micros)
  | none => .error .spanTooLong

/-- A delay as a document, in milliseconds. -/
def ofDelay (d : Time.Delay) : Except WriteError Json :=
  match d.millis? with
  | some millis => .ok (int millis)
  | none => .error .delayTooLong

end Json

namespace Event

/-- The names of an event's fields in documents, in their order. -/
def fieldNames : List String :=
  ["id", "owner_id", "title", "description", "start_at", "end_at", "notify_before_micros",
    "notified_at"]

def toJson (e : Event) : Except WriteError Json :=
  (Json.ofSpan e.lead).map fun lead =>
    .record [("id", .ofUuid e.id), ("owner_id", .ofUuid e.owner), ("title", .text e.title),
      ("description", .text e.description), ("start_at", .ofInstant e.start),
      ("end_at", .ofInstant e.finish), ("notify_before_micros", lead),
      ("notified_at", (e.notified.map Json.ofInstant).getD .null)]

/-- The event that a document gives. Only the mark of the last notification may be missing. -/
def ofJson? (v : Json) : Option Event := do
  let fields ← v.fields? fieldNames
  let id ← Json.required? fields "id" Json.uuid?
  let owner ← Json.required? fields "owner_id" Json.uuid?
  let title ← Json.required? fields "title" Json.text?
  let description ← Json.required? fields "description" Json.text?
  let start ← Json.required? fields "start_at" Json.instant?
  let finish ← Json.required? fields "end_at" Json.instant?
  let lead ← Json.required? fields "notify_before_micros" Json.span?
  let notified ← Json.defaulted? fields "notified_at" none (Json.optional? Json.instant?)
  some { id, owner, title, description, start, finish, lead, notified }

def encode (e : Event) : Except WriteError String :=
  e.toJson.map Json.render

/-- The event that a byte string writes. -/
def decode? (bytes : List UInt8) : Option Event :=
  (Json.parse? bytes).bind ofJson?

end Event

end Almanac
