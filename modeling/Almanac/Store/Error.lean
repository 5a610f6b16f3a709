import Almanac.Query.Condition
import Almanac.Time.Delay
import Almanac.Time.Instant.Printer

/-! Why a store refuses an operation or fails at it. -/

namespace Almanac

open Time Query

/-- Refusals and failures of stores. -/
inductive StoreError where
  | notFound (id : Uuid)
  | query (cause : QueryError)
  | emptyFilter
  /-- The operation took longer than it may. -/
  | timeout (limit : Delay)
  | connection (text : String)
  | database (text : String)
  /-- The instant of the event's notification is out of range. -/
  | outOfRange (lead : Span) (start : Instant)
  | invalidConfig (text : String)
  deriving DecidableEq, Repr

namespace StoreError

/-- The text of a refusal or failure. -/
def message : StoreError → String
  | .notFound id => s!"event not found: {id}"
  | .query cause => cause.message
  | .emptyFilter => "bulk delete requires at least one condition"
  | .timeout limit => s!"store operation timed out after {limit}"
  | .connection text => s!"connection error: {text}"
  | .database text => s!"database error: {text}"
  | .outOfRange lead start =>
      s!"invalid event: notify_before {lead} puts the notification out of range of start_at {start}"
  | .invalidConfig text => s!"invalid storage configuration: {text}"

/-- Whether the refusal is that no event has the identifier. -/
def isNotFound : StoreError → Bool
  | .notFound _ => true
  | _ => false

end StoreError

end Almanac
