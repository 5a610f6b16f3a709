import Almanac.Event.Notification
import Almanac.Proofs.Json.Fields

/-! Payloads written by others. An event or a notification is read from any text of its record: its
members stand in any order, with any blanks and escapes, among members that the record does not
have. A field that is given twice makes the payload unreadable.
-/

namespace Almanac

-------------------------------------------------------------------------------
-- Texts of one record
-------------------------------------------------------------------------------

namespace Json

/-- Whether byte strings are texts of two objects, the second one with the members of the first in
any order and further ones of names outside a list. -/
def Rearranged (names : List String) (payload other : List UInt8) : Prop :=
  ∃ members wider, IsText (.object members) payload ∧ IsText (.object wider) other
    ∧ Widens names members wider

/-- Whether byte strings are texts of two objects, the second one with the members of the first and
one more of a listed name that is among them. -/
def Repeated (names : List String) (payload other : List UInt8) : Prop :=
  ∃ members wider, IsText (.object members) payload ∧ IsText (.object wider) other
    ∧ Doubles names members wider

/-- Whether a record is read from nothing but its fields, found by their names. -/
structure ReadsFields {α : Type} (names : List String) (read : Json → Option α) : Prop where
  refused : ∀ v, v.fields? names = none → read v = none
  congr : ∀ {v w : Json} {fields others : List (String × Json)}, v.fields? names = some fields
    → w.fields? names = some others
    → (∀ name ∈ names, others.lookup name = fields.lookup name) → read w = read v

variable {α : Type} {names : List String} {read : Json → Option α} {payload other : List UInt8}

/-- A record that was read is read from each of its texts. -/
theorem ReadsFields.bind_parse?_eq_some (reads : ReadsFields names read)
    (rearranged : Rearranged names payload other) {a : α}
    (accepted : (parse? payload).bind read = some a)
    : (parse? other).bind read = some a := by
  obtain ⟨members, wider, text, other_text, widens⟩ := rearranged
  rw [parse?_eq_some_iff.mpr text, Option.bind_some] at accepted
  rw [parse?_eq_some_iff.mpr other_text, Option.bind_some]
  cases found : (object members).fields? names with
  | none =>
      rw [reads.refused _ found] at accepted
      cases accepted
  | some fields =>
      obtain ⟨others, refound, same⟩ := widens.exists_fields found
      rw [reads.congr found refound same, accepted]

/-- No record is read with a field given twice. -/
theorem ReadsFields.bind_parse?_eq_none (reads : ReadsFields names read)
    (repeated : Repeated names payload other)
    : (parse? other).bind read = none := by
  obtain ⟨members, wider, -, other_text, doubles⟩ := repeated
  rw [parse?_eq_some_iff.mpr other_text, Option.bind_some]
  exact reads.refused _ doubles.fields?_eq_none

end Json

-------------------------------------------------------------------------------
-- Records
-------------------------------------------------------------------------------

theorem Notification.readsFields : Json.ReadsFields fieldNames ofJson? where
  refused v unread := by
    rw [ofJson?, unread]
    rfl
  congr found refound same := by
    simp only [fieldNames, List.forall_mem_cons] at same
    rw [ofJson?, ofJson?, found, refound]
    simp only [Option.bind_eq_bind, Option.bind_some, Json.required?, Json.defaulted?, same]

theorem Event.readsFields : Json.ReadsFields fieldNames ofJson? where
  refused v unread := by
    rw [ofJson?, unread]
    rfl
  congr found refound same := by
    simp only [fieldNames, List.forall_mem_cons] at same
    rw [ofJson?, ofJson?, found, refound]
    simp only [Option.bind_eq_bind, Option.bind_some, Json.required?, Json.defaulted?, same]

/-- The texts of documents are just what is read as documents. A notification or an event that was
read from an object is read from every text of the object, with its members in any order and further
members among them. With a field given twice, neither is read. -/
theorem payloads_rearranged
    : (∀ (payload : List UInt8) (document : Json),
        Json.parse? payload = some document ↔ Json.IsText document payload)
      ∧ (∀ payload other : List UInt8,
        (Json.Rearranged Notification.fieldNames payload other
          → ∀ n, Notification.decode payload = .ok n → Notification.decode other = .ok n)
        ∧ (Json.Repeated Notification.fieldNames payload other
          → Notification.decode other = .error .decode))
      ∧ ∀ payload other : List UInt8,
        (Json.Rearranged Event.fieldNames payload other
          → ∀ e, Event.decode? payload = some e → Event.decode? other = some e)
        ∧ (Json.Repeated Event.fieldNames payload other → Event.decode? other = none) := by
  refine ⟨fun _ _ => Json.parse?_eq_some_iff, fun payload other => ⟨fun rearranged n read => ?_,
    fun repeated => ?_⟩, fun payload other => ⟨fun rearranged e => ?_, fun repeated => ?_⟩⟩
  · unfold Notification.decode at read ⊢
    split at read
    case h_1 found accepted =>
        cases read
        rw [Notification.readsFields.bind_parse?_eq_some rearranged accepted]
    case h_2 => cases read
  · rw [Notification.decode, Notification.readsFields.bind_parse?_eq_none repeated]
  · exact Event.readsFields.bind_parse?_eq_some rearranged
  · exact Event.readsFields.bind_parse?_eq_none repeated

/-- An event in whole microseconds, with a title that is escaped. -/
def sighting : Event :=
  { id := .issued 7
    owner := .issued 8
    title := "a \"b\" \n é"
    description := ""
    start := default
    finish := .ofParts 59 1999999999 (by omega)
    lead := ⟨5000000, by omega⟩
    notified := none }

/-- A record that is read as the event and as its notification. -/
def sightingFields : List (String × Json) :=
  [("id", .ofUuid sighting.id), ("event_id", .ofUuid sighting.id),
    ("owner_id", .ofUuid sighting.owner), ("title", .text sighting.title),
    ("description", .text sighting.description), ("start_at", .ofInstant sighting.start),
    ("end_at", .ofInstant sighting.finish), ("notify_before_micros", .int 5000)]

/-- A member that neither record names, with a number that no machine holds. -/
def sightedFrom : String × Json :=
  ("seen_from", .array [.record [("title", .null)], .number "-0.5e+999"])

def sightingPayload : List UInt8 :=
  Text.Utf8.encode (Json.chars (.record sightingFields))

/-- The record with its fields from last to first behind the other member, after a blank. -/
def sightingRearranged : List UInt8 :=
  Text.Utf8.encode ('\n' :: Json.chars (.record (sightedFrom :: sightingFields.reverse)))

/-- The record with a second title. -/
def sightingRepeated : List UInt8 :=
  Text.Utf8.encode (Json.chars (.record (("title", .null) :: sightingFields)))

theorem plain_sightingFields : ∀ field ∈ sightingFields, field.2.Plain := by
  simp [sightingFields]

theorem sighting_isText : Json.IsText (.record sightingFields) sightingPayload :=
  Json.isText_encode_chars (Json.plain_record plain_sightingFields)

theorem sighting_rearranged {names : List String} (unnamed : "seen_from" ∉ names)
    : Json.Rearranged names sightingPayload sightingRearranged := by
  have other_plain : sightedFrom.2.Plain :=
    ⟨Json.plain_record (by simp [Json.Plain]), by simp only [Json.Plain]; decide, trivial⟩
  have plain : Json.Plain (.record (sightedFrom :: sightingFields.reverse)) :=
    Json.plain_record (List.forall_mem_cons.mpr
      ⟨other_plain, fun field mem => plain_sightingFields field (List.mem_reverse.mp mem)⟩)
  have order : (sightedFrom :: sightingFields.reverse).Perm (sightingFields ++ [sightedFrom]) :=
    ((List.reverse_perm _).cons _).trans (List.perm_append_singleton _ _).symm
  refine ⟨sightingFields.map Json.asMember,
    (sightedFrom :: sightingFields.reverse).map Json.asMember, sighting_isText,
    Json.isText_encode_cons (Json.isText_encode_chars plain) (by decide),
    [Json.asMember sightedFrom], by simpa using order.map Json.asMember, ?_⟩
  simpa [Json.asMember, sightedFrom] using unnamed

theorem sighting_repeated {names : List String} (named : "title" ∈ names)
    : Json.Repeated names sightingPayload sightingRepeated := by
  have plain : Json.Plain (.record (("title", .null) :: sightingFields)) :=
    Json.plain_record (List.forall_mem_cons.mpr ⟨trivial, plain_sightingFields⟩)
  exact ⟨_, _, sighting_isText, Json.isText_encode_chars plain, "title", .null, [], named,
    by simp [sightingFields], by simp⟩

theorem sighting_read
    : Notification.ofJson? (.record sightingFields) = some sighting.notification
      ∧ Event.ofJson? (.record sightingFields) = some sighting := by
  have lead : Json.span? (.int 5000) = some ⟨5000000, by omega⟩ := by
    rw [Json.span?, Json.word?_int (by decide)]
    decide
  have fields : ∀ names, (Json.record sightingFields).fields? names = some sightingFields :=
    Json.fields?_record (by simp [sightingFields])
  rw [Notification.ofJson?, Event.ofJson?, fields, fields]
  constructor <;>
    simp [sightingFields, Json.required?_cons, Json.defaulted?, lead] <;> rfl

theorem payloads_rearranged_sighting
    : Notification.decode sightingRearranged = .ok sighting.notification
      ∧ Notification.decode sightingRepeated = .error .decode
      ∧ Event.decode? sightingRearranged = some sighting
      ∧ Event.decode? sightingRepeated = none := by
  obtain ⟨texts, notifications, events⟩ := payloads_rearranged
  have document := (texts _ _).mpr sighting_isText
  refine ⟨(notifications _ _).1 (sighting_rearranged (by decide)) _ ?_,
    (notifications _ _).2 (sighting_repeated (by decide)),
    (events _ _).1 (sighting_rearranged (by decide)) _ ?_,
    (events _ _).2 (sighting_repeated (by decide))⟩
  · rw [Notification.decode, document, Option.bind_some, sighting_read.1]
  · rw [Event.decode?, document, Option.bind_some, sighting_read.2]

end Almanac
