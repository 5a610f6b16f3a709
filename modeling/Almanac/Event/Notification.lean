import Almanac.Event.Document

/-! Notifications: what a due event tells the world, and their payloads.
A payload is the bytes of a document. Its description may be missing and then is empty.
-/

namespace Almanac

open Time

/-- The content of one event's notification. -/
structure Notification where
  event : Uuid
  owner : Uuid
  title : String
  description : String
  start : Instant
  finish : Instant
  lead : Span
  deriving DecidableEq, Repr

def Event.notification (e : Event) : Notification :=
  { event := e.id
    owner := e.owner
    title := e.title
    description := e.description
    start := e.start
    finish := e.finish
    lead := e.lead }

/-- Why a payload could not be made or read. -/
inductive CodecError where
  | encode (cause : WriteError)
  | decode
  deriving DecidableEq, Repr

/-- The text of a failed encoding or decoding. -/
def CodecError.message : CodecError → String
  | .encode cause => "failed to encode notification: " ++ cause.message
  | .decode => "failed to decode notification"

namespace Notification

/-- The names of a notification's fields in documents, in their order. -/
def fieldNames : List String :=
  ["event_id", "owner_id", "title", "description", "start_at", "end_at", "notify_before_micros"]

def toJson (n : Notification) : Except WriteError Json :=
  (Json.ofSpan n.lead).map fun lead =>
    .record [("event_id", .ofUuid n.event), ("owner_id", .ofUuid n.owner), ("title", .text n.title),
      ("description", .text n.description), ("start_at", .ofInstant n.start),
      ("end_at", .ofInstant n.finish), ("notify_before_micros", lead)]

def ofJson? (v : Json) : Option Notification := do
  let fields ← v.fields? fieldNames
  let event ← Json.required? fields "event_id" Json.uuid?
  let owner ← Json.required? fields "owner_id" Json.uuid?
  let title ← Json.required? fields "title" Json.text?
  let description ← Json.defaulted? fields "description" "" Json.text?
  let start ← Json.required? fields "start_at" Json.instant?
  let finish ← Json.required? fields "end_at" Json.instant?
  let lead ← Json.required? fields "notify_before_micros" Json.span?
  some { event, owner, title, description, start, finish, lead }

def encode (n : Notification) : Except CodecError (List UInt8) :=
  match n.toJson with
  | .ok document => .ok (Text.Utf8.encode document.chars)
  | .error cause => .error (.encode cause)

def decode (payload : List UInt8) : Except CodecError Notification :=
  match (Json.parse? payload).bind ofJson? with
  | some n => .ok n
  | none => .error .decode

end Notification

end Almanac
