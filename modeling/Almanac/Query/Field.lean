import Almanac.Event

/-! The fields that queries name, the kinds of their values, and the values of an event's fields. -/

namespace Almanac.Query

/-- The kinds of values that fields have and operands give. -/
inductive Kind where
  | identifier
  | text
  | instant
  | span
  deriving DecidableEq, Repr

namespace Kind

/-- How messages name a kind. -/
def label : Kind → String
  | .identifier => "identifier"
  | .text => "text"
  | .instant => "instant"
  | .span => "duration"

/-- How documents name a kind. -/
def name : Kind → String
  | .identifier => "id"
  | .text => "text"
  | .instant => "instant"
  | .span => "duration"

def all : List Kind :=
  [.identifier, .text, .instant, .span]

def ofName? (name : String) : Option Kind :=
  all.find? (·.name = name)

def Carrier : Kind → Type
  | .identifier => Uuid
  | .text => String
  | .instant => Time.Instant
  | .span => Time.Span

instance : (k : Kind) → DecidableEq k.Carrier
  | .identifier => inferInstanceAs (DecidableEq Uuid)
  | .text => inferInstanceAs (DecidableEq String)
  | .instant => inferInstanceAs (DecidableEq Time.Instant)
  | .span => inferInstanceAs (DecidableEq Time.Span)

/-- The order of the values of a kind. Identifiers and texts compare by their bytes, which for
texts is the order of their code points. -/
def compare : (k : Kind) → k.Carrier → k.Carrier → Ordering
  | .identifier => fun a b => Ord.compare (α := Uuid) a b
  | .text => fun a b => Ord.compare (α := String) a b
  | .instant => fun a b => Ord.compare (α := Time.Instant) a b
  | .span => fun a b => Ord.compare (α := Time.Span) a b

/-- A value as stores keep it: instants and spans in whole microseconds. -/
def truncate : (k : Kind) → k.Carrier → k.Carrier
  | .identifier => fun v => v
  | .text => fun v => v
  | .instant => Time.Instant.truncate
  | .span => Time.Span.truncate

end Kind

/-- A value with its kind. -/
structure Datum where
  kind : Kind
  value : kind.Carrier

/-- The fields of an event. -/
inductive Field where
  | id
  | owner
  | title
  | description
  | start
  | finish
  | lead
  | notified
  deriving DecidableEq, Repr

namespace Field

/-- Every field, in the order of a record. -/
def all : List Field :=
  [.id, .owner, .title, .description, .start, .finish, .lead, .notified]

/-- How queries and documents name a field. -/
def name : Field → String
  | .id => "id"
  | .owner => "owner_id"
  | .title => "title"
  | .description => "description"
  | .start => "start_at"
  | .finish => "end_at"
  | .lead => "notify_before"
  | .notified => "notified_at"

def ofName? (name : String) : Option Field :=
  all.find? (·.name = name)

/-- The place of a field in a record. -/
def index (f : Field) : Nat :=
  all.idxOf f

def kind : Field → Kind
  | .id | .owner => .identifier
  | .title | .description => .text
  | .start | .finish | .notified => .instant
  | .lead => .span

/-- Only the mark of the last notification can be unset. -/
def isNullable : Field → Bool
  | .notified => true
  | _ => false

/-- The value of a field, when it is set. -/
def value? (f : Field) (e : Event) : Option f.kind.Carrier :=
  match f with
  | .id => some e.id
  | .owner => some e.owner
  | .title => some e.title
  | .description => some e.description
  | .start => some e.start
  | .finish => some e.finish
  | .lead => some e.lead
  | .notified => e.notified

/-- A field that is not nullable is set in every event. -/
theorem isSome_value? (f : Field) (e : Event) (h : f.isNullable = false)
    : (f.value? e).isSome := by
  cases f with
  | notified => cases h
  | _ => rfl

theorem ofName?_name (f : Field) : ofName? f.name = some f := by
  cases f <;> rfl

end Field

end Almanac.Query
