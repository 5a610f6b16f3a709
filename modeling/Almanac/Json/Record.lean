import Almanac.Json.Value
import Almanac.Text.Numeral
import Almanac.Time.Delay
import Almanac.Time.Instant.Printer
import Almanac.Time.Instant.Reader
import Almanac.Uuid

/-! Reading and writing the parts of records.
A record is an object with named fields, or an array of its fields in their order. Names that the
record does not have are passed over; a field given twice is refused.
-/

namespace Almanac.Json

def text? : Json → Option String
  | .string content => content
  | _ => none

def bool? : Json → Option Bool
  | .bool b => some b
  | _ => none

/-- A whole number of at most `max`, written with digits alone. -/
def natUpTo? (max : Nat) : Json → Option Nat
  | .number literal => (Text.natOfDigits? literal.toList).filter (· ≤ max)
  | _ => none

/-- A signed 64-bit word, written with digits alone after its sign. Negative zero is no whole
number. -/
def word? : Json → Option Int
  | .number literal =>
      match literal.toList with
      | '-' :: digits =>
          ((Text.natOfDigits? digits).filter (0 < ·)).bind fun n =>
            if Time.Span.fitsWord (-n) then some (-n) else none
      | digits =>
          (Text.natOfDigits? digits).bind fun n =>
            if Time.Span.fitsWord n then some (n : Int) else none
  | _ => none

/-- The name of a case: a text, or an object whose one member has that name and no value. -/
def case? : Json → Option String
  | .string content => content
  | .object [(some name, .null)] => some name
  | _ => none

def uuid? (v : Json) : Option Uuid :=
  v.text?.bind Uuid.ofText?

/-- An instant, written as a timestamp. -/
def instant? (v : Json) : Option Time.Instant :=
  v.text?.bind Time.Instant.ofTimestamp?

/-- A span, written in microseconds. -/
def span? (v : Json) : Option Time.Span :=
  v.word?.bind Time.Span.ofMicros?

/-- A delay, written in milliseconds. -/
def delay? (v : Json) : Option Time.Delay :=
  (v.natUpTo? 18446744073709551615).map Time.Delay.ofMillis

/-- A value that may be absent, written as null then. -/
def optional? {α : Type} (read : Json → Option α) : Json → Option (Option α)
  | .null => some none
  | v => (read v).map some

def ofUuid (u : Uuid) : Json :=
  text u.text

def ofInstant (t : Time.Instant) : Json :=
  text t.timestamp

/-- The members of an object whose names are texts. -/
def named? : List (Option String × Json) → Option (List (String × Json))
  | [] => some []
  | (name, item) :: members =>
      name.bind fun name => (named? members).map ((name, item) :: ·)

/-- The fields that a record gives, by name. An object may have further members but no field twice;
an array gives the fields in their order and may stop early but not have more. -/
def fields? (names : List String) : Json → Option (List (String × Json))
  | .object members =>
      (named? members).bind fun members =>
        if names.all fun name => (members.filter (·.1 = name)).length ≤ 1 then some members
        else none
  | .array items =>
      if items.length ≤ names.length then some (names.zip items) else none
  | _ => none

/-- Reads a field that must be given. -/
def required? {α : Type} (fields : List (String × Json)) (name : String) (read : Json → Option α)
    : Option α :=
  (fields.lookup name).bind read

/-- Reads a field that has a default. -/
def defaulted? {α : Type} (fields : List (String × Json)) (name : String) (default : α)
    (read : Json → Option α)
    : Option α :=
  match fields.lookup name with
  | some v => read v
  | none => some default

end Almanac.Json
