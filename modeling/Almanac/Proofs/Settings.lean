import Almanac.Broker.Settings
import Almanac.Dispatch.Settings
import Almanac.Proofs.Json.Fields
import Almanac.Relay.Settings
import Almanac.Store.Settings

/-! Settings are read back as they were written, their delays cut to whole milliseconds. They can be
written just when a word holds the milliseconds of each delay.
-/

namespace Almanac

open Time

-------------------------------------------------------------------------------
-- Numbers and delays
-------------------------------------------------------------------------------

/-- Whether an unsigned 64-bit word holds the whole milliseconds of a delay. -/
def Time.Delay.Fits (d : Delay) : Prop :=
  d.millis ≤ 18446744073709551615

instance (d : Delay) : Decidable d.Fits :=
  inferInstanceAs (Decidable (d.millis ≤ 18446744073709551615))

/-- A delay cut to whole milliseconds. -/
def Time.Delay.cut (d : Delay) : Delay :=
  .ofMillis d.millis

namespace Json

/-- A number that is not negative is read back when the bound admits it. -/
theorem natUpTo?_int {n max : Nat} (le : n ≤ max) : (int n).natUpTo? max = some n := by
  simp only [natUpTo?, int, Text.toList_toString_int]
  simp [Text.natOfDigits?_toDigits, le]

/-- A text is read as the case of its own name. -/
theorem case?_text (s : String) : (text s).case? = some s := by
  simp [case?, text]

/-- A delay is written in its whole milliseconds. -/
theorem ofDelay_of_fits {d : Delay} (fits : d.Fits) : ofDelay d = .ok (int d.millis) := by
  simp only [Delay.Fits] at fits
  simp [ofDelay, Delay.millis?, fits]

/-- A delay that does not fit is refused when it is written. -/
theorem ofDelay_of_not_fits {d : Delay} (long : ¬d.Fits) : ofDelay d = .error .delayTooLong := by
  simp only [Delay.Fits] at long
  simp [ofDelay, Delay.millis?, long]

/-- A record with a delay that is too long is not written. -/
theorem map_ofDelay_of_not_fits {d : Delay} (long : ¬d.Fits) (withDelay : Json → Json)
    : (ofDelay d).map withDelay = .error .delayTooLong := by
  rw [ofDelay_of_not_fits long]
  rfl

/-- Written milliseconds are read as the delay cut to them. -/
theorem delay?_int_millis {d : Delay} (fits : d.Fits) : (int d.millis).delay? = some d.cut := by
  simp [delay?, natUpTo?_int fits, Delay.cut]

end Json

-------------------------------------------------------------------------------
-- Round trips
-------------------------------------------------------------------------------

/-- Whether values are written just when they can be, and what is written is read as the same value,
cut. -/
structure Json.RoundTrips {α : Type} (write : α → Except WriteError Json) (read : Json → Option α)
    (Fits : α → Prop) (cut : α → α)
    : Prop where
  written : ∀ a, (∃ document, write a = .ok document) ↔ Fits a
  refused : ∀ a, ¬Fits a → write a = .error .delayTooLong
  reread : ∀ a document, write a = .ok document
    → (Json.parse? (Text.Utf8.encode (Json.render document).toList)).bind read = some (cut a)

/-- Reading a rendered plain document is reading the document, by its own round trip. -/
theorem Json.bind_parse?_render {α : Type} {document : Json} (plain : document.Plain)
    (read : Json → Option α)
    : (Json.parse? (Text.Utf8.encode (Json.render document).toList)).bind read = read document := by
  rw [Json.render, String.toList_ofList, Json.parse?_encode_chars plain, Option.bind_some]

/-- It is enough to know the document of each value that can be written. -/
theorem Json.RoundTrips.of_documents {α : Type} {write : α → Except WriteError Json}
    {read : Json → Option α} {Fits : α → Prop} {cut : α → α}
    (written : ∀ a, Fits a
      → ∃ document, write a = .ok document ∧ document.Plain ∧ read document = some (cut a))
    (refused : ∀ a, ¬Fits a → write a = .error .delayTooLong)
    : RoundTrips write read Fits cut := by
  have fits_of {a : α} {document : Json} (same : write a = .ok document) : Fits a :=
    Classical.byContradiction fun long => by
      rw [refused a long] at same
      cases same
  constructor
  case written =>
    refine fun a => ⟨fun ⟨document, same⟩ => fits_of same, fun fits => ?_⟩
    obtain ⟨document, same, -⟩ := written a fits
    exact ⟨document, same⟩
  case refused => exact refused
  case reread =>
    intro a document same
    obtain ⟨own, own_eq, plain, read_eq⟩ := written a (fits_of same)
    obtain rfl : own = document := Except.ok.inj (own_eq.symm.trans same)
    rw [Json.bind_parse?_render plain, read_eq]

-------------------------------------------------------------------------------
-- Settings with delays
-------------------------------------------------------------------------------

namespace Store

/-- Settings whose limit fits have a plain document, which is read back with the limit cut. -/
theorem DatabaseSettings.exists_document {s : DatabaseSettings} (fits : s.limit.Fits)
    : ∃ document, s.toJson = .ok document ∧ document.Plain
        ∧ ofJson? document = some { s with limit := s.limit.cut } := by
  have small : s.maxConnections.toNat ≤ 4294967295 := by
    have := s.maxConnections.toNat_lt
    omega
  refine ⟨_, by rw [toJson, Json.ofDelay_of_fits fits]; rfl, Json.plain_record (by simp), ?_⟩
  rw [ofJson?, Json.fields?_record (by simp)]
  simp [Json.required?_cons, Json.natUpTo?_int small, Json.delay?_int_millis fits]

/-- Kinds of storage are read by their own names. -/
theorem BackendKind.ofName?_name (kind : BackendKind) : ofName? kind.name = some kind := by
  cases kind <;> rfl

/-- Storage settings have a document if those of their database do. -/
theorem Settings.exists_document {s : Settings} (fits : s.database.limit.Fits)
    : ∃ document, s.toJson = .ok document ∧ document.Plain
        ∧ ofJson? document
          = some { s with database := { s.database with limit := s.database.limit.cut } } := by
  obtain ⟨database, written, plain, read⟩ := DatabaseSettings.exists_document fits
  have flag : (Json.bool s.runMigrations).Plain := trivial
  refine ⟨_, by rw [toJson, written]; rfl, Json.plain_record (by simp [plain, flag]), ?_⟩
  rw [ofJson?, Json.fields?_record (by simp)]
  simp [Json.required?_cons, Json.case?_text, BackendKind.ofName?_name, read, Json.bool?]

/-- Storage settings are refused where those of their database are. -/
theorem Settings.toJson_of_not_fits {s : Settings} (long : ¬s.database.limit.Fits)
    : s.toJson = .error .delayTooLong := by
  rw [toJson, DatabaseSettings.toJson, Json.map_ofDelay_of_not_fits long]
  rfl

end Store

/-- A scheduler's settings have a plain document if both delays fit. -/
theorem Dispatch.Settings.exists_document {s : Settings}
    (fits : s.cycle.Fits ∧ s.retention.Fits)
    : ∃ document, s.toJson = .ok document ∧ document.Plain
        ∧ ofJson? document = some { cycle := s.cycle.cut, retention := s.retention.cut } := by
  refine ⟨_, by rw [toJson, Json.ofDelay_of_fits fits.1, Json.ofDelay_of_fits fits.2]; rfl,
    Json.plain_record (by simp), ?_⟩
  rw [ofJson?, Json.fields?_record (by simp)]
  simp [Json.required?_cons, Json.delay?_int_millis fits.1, Json.delay?_int_millis fits.2]

/-- One delay that does not fit is enough for a refusal, whichever it is. -/
theorem Dispatch.Settings.toJson_of_not_fits {s : Settings}
    (long : ¬(s.cycle.Fits ∧ s.retention.Fits))
    : s.toJson = .error .delayTooLong := by
  by_cases fits : s.cycle.Fits
  · have long : ¬s.retention.Fits := fun other => long ⟨fits, other⟩
    rw [toJson, Json.ofDelay_of_fits fits, Json.ofDelay_of_not_fits long]
    rfl
  · rw [toJson, Json.ofDelay_of_not_fits fits]
    rfl

namespace Relay

/-- Kinds of targets are read by their own names. -/
theorem TargetKind.ofName?_name (kind : TargetKind) : ofName? kind.name = some kind := by
  cases kind <;> rfl

/-- A sender's settings have a plain document if the delay between attempts fits. -/
theorem Settings.exists_document {s : Settings} (fits : s.retryDelay.Fits)
    : ∃ document, s.toJson = .ok document ∧ document.Plain
        ∧ ofJson? document = some { s with retryDelay := s.retryDelay.cut } := by
  have small : s.workers.toNat ≤ 18446744073709551615 := by
    have := s.workers.toNat_lt
    omega
  refine ⟨_, by rw [toJson, Json.ofDelay_of_fits fits]; rfl, Json.plain_record (by simp), ?_⟩
  rw [ofJson?, Json.fields?_record (by simp)]
  simp [Json.required?_cons, Json.natUpTo?_int small, Json.case?_text, TargetKind.ofName?_name,
    Json.delay?_int_millis fits]

end Relay

-------------------------------------------------------------------------------
-- Message channels
-------------------------------------------------------------------------------

namespace Broker

/-- A kind that was read by a name has that name; custom ones keep theirs. -/
theorem ExchangeKind.name_of_ofName? {s : String} {kind : ExchangeKind}
    (read : ofName? s = some kind)
    : kind.name = s := by
  unfold ofName? at read
  split at read
  case h_4 =>
      split at read
      case h_1 =>
          cases read
          rfl
      case h_2 => cases read
  all_goals
    cases read
    rfl

/-- The text of a setting is accepted exactly if it is read as a kind. -/
theorem ExchangeKind.ofText_eq_ok_iff {s : String} {kind : ExchangeKind}
    : ofText s = .ok kind ↔ ofName? s = some kind := by
  unfold ofText
  cases ofName? s <;> simp

/-- A kind that a text gives is the kind of its own name. -/
theorem ExchangeKind.ofName?_name {s : String} {kind : ExchangeKind} (read : ofText s = .ok kind)
    : ofName? kind.name = some kind := by
  have read := ofText_eq_ok_iff.mp read
  rwa [name_of_ofName? read]

/-- A channel's settings are a record of plain members. -/
theorem Settings.plain_toJson (s : Settings) : s.toJson.Plain :=
  Json.plain_record (by simp)

/-- A channel's settings are read back unchanged where their kind stems from a text. -/
theorem Settings.ofJson?_toJson {s : Settings} {text : String}
    (kind : ExchangeKind.ofText text = .ok s.kind)
    : ofJson? s.toJson = some s := by
  have small : s.prefetch.toNat ≤ 65535 := by
    have := s.prefetch.toNat_lt
    omega
  rw [ofJson?, toJson, Json.fields?_record (by simp)]
  simp [Json.required?_cons, Json.natUpTo?_int small, ExchangeKind.ofName?_name kind]

end Broker

-------------------------------------------------------------------------------
-- All settings
-------------------------------------------------------------------------------

/-- Settings of channels are read back as they were written, when a text gives the kind of their
exchange. Settings with delays can be written just when a word holds the milliseconds of each
delay, and are read back with their delays cut to whole milliseconds. A string is read as a kind of
exchange just when its text gives one, and that kind is written as the same string. -/
theorem settings_round_trip
    : (∀ (s : Broker.Settings) (text : String), Broker.ExchangeKind.ofText text = .ok s.kind
        → (Json.parse? (Text.Utf8.encode (Json.render s.toJson).toList)).bind
            Broker.Settings.ofJson? = some s)
      ∧ Json.RoundTrips Store.DatabaseSettings.toJson Store.DatabaseSettings.ofJson?
        (fun s => s.limit.Fits) (fun s => { s with limit := s.limit.cut })
      ∧ Json.RoundTrips Store.Settings.toJson Store.Settings.ofJson?
        (fun s => s.database.limit.Fits)
        (fun s => { s with database := { s.database with limit := s.database.limit.cut } })
      ∧ Json.RoundTrips Dispatch.Settings.toJson Dispatch.Settings.ofJson?
        (fun s => s.cycle.Fits ∧ s.retention.Fits)
        (fun s => { cycle := s.cycle.cut, retention := s.retention.cut })
      ∧ Json.RoundTrips Relay.Settings.toJson Relay.Settings.ofJson?
        (fun s => s.retryDelay.Fits) (fun s => { s with retryDelay := s.retryDelay.cut })
      ∧ ∀ s : String,
        Json.IsText (.text s) (Text.Utf8.encode (Json.render (.text s)).toList)
        ∧ (∀ payload, Json.IsText (.text s) payload → ∀ kind : Broker.ExchangeKind,
          (Json.parse? payload).bind (fun v => v.text?.bind Broker.ExchangeKind.ofName?) = some kind
            ↔ Broker.ExchangeKind.ofText s = .ok kind)
        ∧ ∀ kind, Broker.ExchangeKind.ofText s = .ok kind
          → kind.name = s ∧ Json.render (.text kind.name) = Json.render (.text s) := by
  refine ⟨fun s text kind => ?_,
    .of_documents (fun _ => Store.DatabaseSettings.exists_document)
      (fun _ long => Json.map_ofDelay_of_not_fits long _),
    .of_documents (fun _ => Store.Settings.exists_document)
      (fun _ => Store.Settings.toJson_of_not_fits),
    .of_documents (fun _ => Dispatch.Settings.exists_document)
      (fun _ => Dispatch.Settings.toJson_of_not_fits),
    .of_documents (fun _ => Relay.Settings.exists_document)
      (fun _ long => Json.map_ofDelay_of_not_fits long _),
    fun s => ⟨?_, fun payload text kind => ?_, fun kind given => ?_⟩⟩
  · rw [Json.bind_parse?_render s.plain_toJson, Broker.Settings.ofJson?_toJson kind]
  · rw [Json.render, String.toList_ofList]
    exact Json.isText_encode_chars (Json.plain_text s)
  · rw [Json.parse?_eq_some_iff.mpr text, Option.bind_some, Json.text?_text, Option.bind_some,
      Broker.ExchangeKind.ofText_eq_ok_iff]
  · have same := Broker.ExchangeKind.name_of_ofName? (Broker.ExchangeKind.ofText_eq_ok_iff.mp given)
    exact ⟨same, by rw [same]⟩

def delayedExchange : Broker.Settings :=
  { kind := .custom "x-delayed" }

/-- A channel with an exchange kind of its own, a delay between attempts that is cut to
milliseconds, and the kind by itself. -/
theorem settings_round_trip_delayed
    : (Json.parse? (Text.Utf8.encode (Json.render delayedExchange.toJson).toList)).bind
          Broker.Settings.ofJson? = some delayedExchange
      ∧ (∃ document, ({ retryDelay := ⟨2999999⟩ } : Relay.Settings).toJson = .ok document
        ∧ (Json.parse? (Text.Utf8.encode (Json.render document).toList)).bind
            Relay.Settings.ofJson? = some { retryDelay := ⟨2000000⟩ })
      ∧ (Json.parse? (Text.Utf8.encode (Json.render (.text "x-delayed")).toList)).bind
          (fun v => v.text?.bind Broker.ExchangeKind.ofName?) = some (.custom "x-delayed")
      ∧ Json.render (.text (Broker.ExchangeKind.custom "x-delayed").name)
        = Json.render (.text "x-delayed") := by
  obtain ⟨channels, -, -, -, senders, kinds⟩ := settings_round_trip
  have given : Broker.ExchangeKind.ofText "x-delayed" = .ok (.custom "x-delayed") := by decide
  obtain ⟨text, reads, writes⟩ := kinds "x-delayed"
  obtain ⟨document, written⟩ := (senders.written { retryDelay := ⟨2999999⟩ }).mpr (by decide)
  exact ⟨channels delayedExchange "x-delayed" given,
    ⟨document, written, senders.reread _ document written⟩, (reads _ text _).mpr given,
    (writes _ given).2⟩

end Almanac
