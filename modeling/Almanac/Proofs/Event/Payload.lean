import Almanac.Event.Notification
import Almanac.Proofs.Json.Fields
import Almanac.Relay.Target

/-! What is written of an event or a notification is read back as the same value, its lead cut to
whole microseconds; and what was read can be written again. Only a leap second that clocks do not
show is read back as another instant, the second that follows: no text tells it apart from that.
-/

namespace Almanac

open Time

-------------------------------------------------------------------------------
-- Leads
-------------------------------------------------------------------------------

namespace Time.Span

/-- A count of microseconds that a word holds is the lead's own when it is read. -/
theorem of_ofMicros? {micros : Int} {s : Span} (read : ofMicros? micros = some s)
    : fitsWord s.wholeMicros ∧ s.truncate = s := by
  simp only [ofMicros?, ofNanos?] at read
  split at read
  case isFalse => cases read
  case isTrue fits =>
      split at read
      case isFalse => cases read
      case isTrue =>
          cases read
          have whole : wholeMicros ⟨micros * 1000, ‹_›⟩ = micros :=
            Int.mul_tdiv_cancel _ (by omega)
          refine ⟨by rwa [whole], nanos_injective ?_⟩
          rw [nanos_truncate (by rwa [whole]), whole]

end Time.Span

namespace Json

/-- A document with a lead is written with the whole microseconds of it, which a word holds. -/
theorem of_map_ofSpan {s : Span} {document : Json} {withLead : Json → Json}
    (written : (ofSpan s).map withLead = .ok document)
    : Span.fitsWord s.wholeMicros ∧ document = withLead (int s.wholeMicros) := by
  by_cases fits : Span.fitsWord s.wholeMicros
  · simp only [ofSpan, Span.micros?, fits, if_true, Except.map, Except.ok.injEq] at written
    exact ⟨fits, written.symm⟩
  · simp [ofSpan, Span.micros?, fits, Except.map] at written

/-- A lead that was read can be written, and is in whole microseconds. -/
theorem of_required?_span? {fields : List (String × Json)} {name : String} {s : Span}
    (read : required? fields name span? = some s)
    : Span.fitsWord s.wholeMicros ∧ s.truncate = s := by
  simp only [required?, span?, Option.bind_eq_some_iff] at read
  obtain ⟨v, -, micros, -, of_micros⟩ := read
  exact Span.of_ofMicros? of_micros

/-- An instant that was read is one that clocks show, since a timestamp tells no other. -/
theorem isShown_of_required? {fields : List (String × Json)} {name : String} {t : Instant}
    (read : required? fields name instant? = some t)
    : t.IsShown := by
  simp only [required?, instant?, Option.bind_eq_some_iff] at read
  obtain ⟨v, -, s, -, timestamp⟩ := read
  exact Instant.isShown_of_ofTimestamp? timestamp

end Json

-------------------------------------------------------------------------------
-- Notifications
-------------------------------------------------------------------------------

namespace Notification

/-- What the payload of a notification tells: its instants as clocks show them and its lead in whole
microseconds. -/
def told (n : Notification) : Notification :=
  { n with start := n.start.shown, finish := n.finish.shown, lead := n.lead.truncate }

/-- Whether clocks show the instants of a notification. -/
structure IsShown (n : Notification) : Prop where
  start : n.start.IsShown
  finish : n.finish.IsShown

instance (n : Notification) : Decidable n.IsShown :=
  decidable_of_iff (n.start.IsShown ∧ n.finish.IsShown)
    ⟨fun ⟨start, finish⟩ => ⟨start, finish⟩, fun ⟨start, finish⟩ => ⟨start, finish⟩⟩

/-- A payload keeps just the instants that clocks show. -/
theorem told_eq_iff {n : Notification}
    : n.told = { n with lead := n.lead.truncate } ↔ n.IsShown := by
  simp only [told, mk.injEq, true_and, and_true, Instant.shown_eq_self_iff]
  exact ⟨fun ⟨start, finish⟩ => ⟨start, finish⟩, fun ⟨start, finish⟩ => ⟨start, finish⟩⟩

/-- A notification's document is plain and gives what it tells of the notification. -/
theorem ofJson?_of_toJson {n : Notification} {document : Json} (written : n.toJson = .ok document)
    : document.Plain ∧ ofJson? document = some n.told := by
  obtain ⟨fits, rfl⟩ := Json.of_map_ofSpan written
  constructor
  · exact Json.plain_record (by simp)
  · rw [ofJson?, Json.fields?_record (by simp)]
    simp [Json.required?_cons, Json.defaulted?_cons, Json.span?_int_wholeMicros fits, told]

/-- What was read of a document tells itself: its instants were read of timestamps and its lead of
a count of microseconds. -/
theorem of_ofJson? {document : Json} {n : Notification} (read : ofJson? document = some n)
    : Span.fitsWord n.lead.wholeMicros ∧ n.told = n := by
  simp only [ofJson?, Option.bind_eq_bind, Option.bind_eq_some_iff] at read
  obtain ⟨fields, -, event, -, owner, -, title, -, description, -, start, start_read, finish,
    finish_read, lead, lead_read, same⟩ := read
  cases same
  obtain ⟨fits, whole⟩ := Json.of_required?_span? lead_read
  refine ⟨fits, ?_⟩
  simp only [told, whole, Instant.shown_of_isShown (Json.isShown_of_required? start_read),
    Instant.shown_of_isShown (Json.isShown_of_required? finish_read)]

/-- A payload gives back what it tells of the notification that it was made of. -/
theorem decode_of_encode {n : Notification} {payload : List UInt8}
    (written : n.encode = .ok payload)
    : decode payload = .ok n.told := by
  simp only [encode] at written
  cases document_eq : n.toJson with
  | error cause => simp [document_eq] at written
  | ok document =>
      obtain ⟨plain, read⟩ := ofJson?_of_toJson document_eq
      simp only [document_eq, Except.ok.injEq] at written
      simp [decode, ← written, Json.parse?_encode_chars plain, read]

theorem of_decode {n : Notification} {payload : List UInt8} (read : decode payload = .ok n)
    : Span.fitsWord n.lead.wholeMicros ∧ n.told = n := by
  simp only [decode] at read
  split at read
  case h_1 found document_read =>
      cases read
      obtain ⟨document, -, document_read⟩ := Option.bind_eq_some_iff.mp document_read
      exact of_ofJson? document_read
  case h_2 => cases read

end Notification

-------------------------------------------------------------------------------
-- Events
-------------------------------------------------------------------------------

namespace Event

/-- What the text of an event tells: its instants as clocks show them and its lead in whole
microseconds. -/
def told (e : Event) : Event :=
  { e with
    start := e.start.shown
    finish := e.finish.shown
    lead := e.lead.truncate
    notified := e.notified.map Instant.shown }

/-- Whether clocks show the instants of an event. -/
structure IsShown (e : Event) : Prop where
  start : e.start.IsShown
  finish : e.finish.IsShown
  notified : ∀ mark, e.notified = some mark → mark.IsShown

/-- The text of an event keeps just the instants that clocks show. -/
theorem told_eq_iff {e : Event} : e.told = { e with lead := e.lead.truncate } ↔ e.IsShown := by
  have marks : e.notified.map Instant.shown = e.notified
      ↔ ∀ mark, e.notified = some mark → mark.IsShown := by
    cases e.notified with
    | none => simp
    | some mark => simp [Instant.shown_eq_self_iff]
  simp only [told, mk.injEq, true_and, Instant.shown_eq_self_iff, marks]
  exact ⟨fun ⟨start, finish, notified⟩ => ⟨start, finish, notified⟩,
    fun ⟨start, finish, notified⟩ => ⟨start, finish, notified⟩⟩

/-- An event's document is plain and gives what it tells of the event. -/
theorem ofJson?_of_toJson {e : Event} {document : Json} (written : e.toJson = .ok document)
    : document.Plain ∧ ofJson? document = some e.told := by
  obtain ⟨fits, rfl⟩ := Json.of_map_ofSpan written
  constructor
  · exact Json.plain_record (by simp)
  · rw [ofJson?, Json.fields?_record (by simp)]
    simp [Json.required?_cons, Json.defaulted?_cons, Json.span?_int_wholeMicros fits,
      Json.optional?_instant?, told]

/-- An event can be written just when a word holds the microseconds of its lead. -/
theorem exists_encode_iff (e : Event)
    : (∃ s, e.encode = .ok s) ↔ Span.fitsWord e.lead.wholeMicros := by
  by_cases fits : Span.fitsWord e.lead.wholeMicros <;>
    simp [encode, toJson, Json.ofSpan, Span.micros?, fits, Except.map]

/-- The text of an event gives back what it tells of the event. -/
theorem decode?_of_encode {e : Event} {s : String} (written : e.encode = .ok s)
    : decode? (Text.Utf8.encode s.toList) = some e.told := by
  simp only [encode] at written
  cases document_eq : e.toJson with
  | error cause => simp [document_eq, Except.map] at written
  | ok document =>
      obtain ⟨plain, read⟩ := ofJson?_of_toJson document_eq
      simp only [document_eq, Except.map, Except.ok.injEq] at written
      simp [decode?, ← written, Json.render, Json.parse?_encode_chars plain, read]

end Event

-------------------------------------------------------------------------------
-- Relaying
-------------------------------------------------------------------------------

/-- A target never refuses for its payload a notification that can be written. -/
theorem Relay.Target.attempt_ne_codec {n : Notification} {payload : List UInt8}
    (written : n.encode = .ok payload) (target : Relay.Target) (b : Broker.State)
    (cause : CodecError)
    : (target.attempt b n).1 ≠ .refused (.codec cause) := by
  cases target with
  | log records => simp [attempt]
  | forward outlet =>
      simp only [attempt, written]
      split <;> simp
  | rehearsed r =>
      simp only [attempt]
      split
      · simp
      · split <;> simp

-------------------------------------------------------------------------------
-- Round trips
-------------------------------------------------------------------------------

/-- Events and notifications can be written just when a word holds the microseconds of their lead.
What is written is read back as what it tells, the same value with its lead cut to whole
microseconds just when clocks show its instants, which are those of all timestamps. What is read as
a notification can be written again, is read as the same, and is relayed without a refusal for its
payload. -/
theorem payloads_round_trip
    : (∀ e : Event,
        ((∃ s, e.encode = .ok s) ↔ Span.fitsWord e.lead.wholeMicros)
        ∧ (∀ s, e.encode = .ok s → Event.decode? (Text.Utf8.encode s.toList) = some e.told)
        ∧ (e.told = { e with lead := e.lead.truncate } ↔ e.IsShown))
      ∧ (∀ n : Notification,
        ((∃ payload, n.encode = .ok payload) ↔ Span.fitsWord n.lead.wholeMicros)
        ∧ (∀ payload, n.encode = .ok payload → Notification.decode payload = .ok n.told)
        ∧ (n.told = { n with lead := n.lead.truncate } ↔ n.IsShown))
      ∧ (∀ t : Instant, t.IsShown ↔ ∃ s, Instant.ofTimestamp? s = some t)
      ∧ ∀ (payload : List UInt8) (n : Notification), Notification.decode payload = .ok n
        → (∃ again, n.encode = .ok again ∧ Notification.decode again = .ok n)
          ∧ ∀ (target : Relay.Target) (b : Broker.State) (cause : CodecError),
            (target.attempt b n).1 ≠ .refused (.codec cause) := by
  refine ⟨fun e => ⟨e.exists_encode_iff, fun s => Event.decode?_of_encode, Event.told_eq_iff⟩,
    fun n => ⟨n.exists_encode_iff, fun payload => Notification.decode_of_encode,
      Notification.told_eq_iff⟩,
    fun t => Instant.exists_ofTimestamp?_iff.symm, fun payload n read => ?_⟩
  obtain ⟨fits, same⟩ := Notification.of_decode read
  obtain ⟨again, written⟩ := n.exists_encode_iff.mpr fits
  have reread := Notification.decode_of_encode written
  rw [same] at reread
  exact ⟨⟨again, written, reread⟩, Relay.Target.attempt_ne_codec written⟩

/-- A notification before the year 0 and in a leap second, with a title that is escaped in each way
and the least lead that can be written. -/
def farNotification : Notification :=
  { event := .nil
    owner := .issued 7
    title := "a \"b\" \\ \x01 \n é 😀"
    description := ""
    start := .ofParts (-8334601228799) 1000 (by omega)
    finish := .ofParts 8210266876739 1999999999 (by omega)
    lead := ⟨-9223372036854775808999, by omega⟩ }

theorem payloads_round_trip_far
    : ∃ payload, farNotification.encode = .ok payload
        ∧ Notification.decode payload
          = .ok { farNotification with lead := ⟨-9223372036854775808000, by omega⟩ } := by
  obtain ⟨written, read, kept⟩ := payloads_round_trip.2.1 farNotification
  obtain ⟨payload, payload_eq⟩ := written.mpr (by decide)
  have told_eq := kept.mpr (by decide)
  refine ⟨payload, payload_eq, (read payload payload_eq).trans ?_⟩
  exact congrArg _ (told_eq.trans (by decide))

/-- A notification that starts in a leap second after the first second of 1970. -/
def unshownNotification : Notification :=
  { farNotification with start := .ofParts 0 1250000000 (by omega) }

/-- Its payload is that of one that starts a quarter of a second into the second that follows, and is
read as that. -/
theorem not_round_trip_unshown
    : ∃ payload, unshownNotification.encode = .ok payload
        ∧ Notification.decode payload
          = .ok { unshownNotification with
              start := .ofParts 1 250000000 (by omega)
              lead := unshownNotification.lead.truncate }
        ∧ Notification.decode payload
          ≠ .ok { unshownNotification with lead := unshownNotification.lead.truncate } := by
  obtain ⟨payload, written⟩ := unshownNotification.exists_encode_iff.mpr (by decide)
  have read := Notification.decode_of_encode written
  refine ⟨payload, written, read.trans (by decide), fun same => ?_⟩
  have told_eq := Except.ok.inj (read.symm.trans same)
  exact absurd (Notification.told_eq_iff.mp told_eq) (by decide)

end Almanac
