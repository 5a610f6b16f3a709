import Almanac.Time.Instant
import Almanac.Uuid

/-! Events and the instant at which their notification falls due.
An event is due from its lead before its start until a notification at or after that instant is
recorded.
-/

namespace Almanac

open Time

/-- A scheduled item that belongs to one owner. `lead` is how long before the start its
notification goes out, and `notified` is when the last one did. -/
structure Event where
  id : Uuid
  owner : Uuid
  title : String
  description : String
  start : Instant
  finish : Instant
  lead : Span
  notified : Option Instant
  deriving DecidableEq, Repr

namespace Event

/-- The instant of the notification, when it is representable. -/
def notifyAt? (e : Event) : Option Instant :=
  e.start.sub? e.lead

/-- The instant of the notification, moved to the nearer end of the range of instants when it lies
outside. -/
def notifyAt (e : Event) : Instant :=
  e.notifyAt?.getD (if 0 < e.lead.nanos then Instant.earliest else Instant.latest)

/-- An event is due when the instant of its notification has come and none was recorded at or
after it. -/
def isDue (e : Event) (now : Instant) : Bool :=
  e.notifyAt ≤ now && e.notified.all (· < e.notifyAt)

/-- An event as stores keep it: instants and lead in whole microseconds. -/
def normalize (e : Event) : Event :=
  { e with
    start := e.start.truncate
    finish := e.finish.truncate
    lead := e.lead.truncate
    notified := e.notified.map Instant.truncate }

end Event

end Almanac
