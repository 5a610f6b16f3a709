import Almanac.Broker.Outlet
import Almanac.Relay.Settings
import Almanac.Time.Instant.Printer

/-! Where notifications are relayed to: the log, a downstream queue, or a rehearsed target. -/

namespace Almanac.Relay

open Time Broker

/-- A log record: its level, its message and its named fields. -/
structure LogRecord where
  level : String
  message : String
  fields : List (String × String)
  seconds : String × Int
  deriving DecidableEq, Repr

/-- The record of a relayed notification. The lead is in whole seconds. -/
def LogRecord.ofNotification (n : Notification) : LogRecord :=
  { level := "INFO"
    message := "notification is sent"
    fields :=
      [("event_id", n.event.text), ("owner_id", n.owner.text), ("title", n.title),
        ("description", n.description), ("start_at", n.start.text), ("end_at", n.finish.text)]
    seconds := ("notify_before_secs", n.lead.wholeSeconds) }

/-- A rehearsed target: how it behaves, and what it has seen. It refuses the first `failures`
attempts and the titles in `failTitles`, and takes `delay` milliseconds for any other. -/
structure Rehearsal where
  connectFails : Bool := false
  closeFails : Bool := false
  failures : Nat := 0
  failTitles : List String := []
  delay : Nat := 0
  attempts : Nat := 0
  relayed : List String := []
  inside : Nat := 0
  peak : Nat := 0
  deriving DecidableEq, Repr

namespace Rehearsal

/-- Whether the next attempt is refused. -/
def refuses (r : Rehearsal) (n : Notification) : Bool :=
  r.attempts < r.failures || r.failTitles.contains n.title

def enter (r : Rehearsal) : Rehearsal :=
  { r with inside := r.inside + 1, peak := max r.peak (r.inside + 1) }

def finish (r : Rehearsal) (n : Notification) : Rehearsal :=
  { r with inside := r.inside - 1, relayed := r.relayed ++ [n.title] }

end Rehearsal

/-- Where notifications go. -/
inductive Target where
  | log (written : List LogRecord)
  | forward (outlet : Outlet)
  | rehearsed (r : Rehearsal)
  deriving DecidableEq, Repr

/-- What became of an attempt to relay. -/
inductive Verdict where
  | taken
  | refused (cause : RelayError)
  /-- It will be taken after some milliseconds. -/
  | underway (millis : Nat)
  deriving DecidableEq, Repr

namespace Target

/-- The kind that settings name for a target. -/
def kind : Target → TargetKind
  | .forward _ => .queue
  | _ => .log

def connect (t : Target) (b : Broker.State) : Except RelayError (Target × Broker.State) :=
  match t with
  | .log _ => .ok (t, b)
  | .forward outlet =>
      match outlet.connect b with
      | .ok (outlet, b) => .ok (.forward outlet, b)
      | .error cause => .error (.queue cause)
  | .rehearsed r => if r.connectFails then .error (.rejected "connect refused") else .ok (t, b)

def attempt (t : Target) (b : Broker.State) (n : Notification) : Verdict × Target × Broker.State :=
  match t with
  | .log written => (.taken, .log (written ++ [.ofNotification n]), b)
  | .forward outlet =>
      match n.encode with
      | .error cause => (.refused (.codec cause), t, b)
      | .ok payload =>
          let (published, outlet, b) := outlet.publish b payload
          match published with
          | .ok _ => (.taken, .forward outlet, b)
          | .error cause => (.refused (.queue cause), .forward outlet, b)
  | .rehearsed r =>
      let counted := { r with attempts := r.attempts + 1 }
      if r.refuses n then (.refused (.rejected "target unavailable"), .rehearsed counted, b)
      else if r.delay = 0 then (.taken, .rehearsed (counted.enter.finish n), b)
      else (.underway r.delay, .rehearsed counted.enter, b)

/-- Ends an attempt that was under way. -/
def finish (t : Target) (n : Notification) : Target :=
  match t with
  | .rehearsed r => .rehearsed (r.finish n)
  | t => t

def close (t : Target) : Except RelayError Unit × Target :=
  match t with
  | .log _ => (.ok (), t)
  | .forward outlet =>
      let (closed, outlet) := outlet.close
      (closed.mapError .queue, .forward outlet)
  | .rehearsed r => (if r.closeFails then .error (.rejected "close refused") else .ok (), t)

/-- How many more attempts a target may refuse before it takes one, titles that it always refuses
apart. -/
def patience : Target → Nat
  | .log _ => 0
  | .forward outlet => outlet.balk.times
  | .rehearsed r => r.failures - r.attempts

/-- The records that the log target wrote. -/
def written : Target → List LogRecord
  | .log written => written
  | _ => []

end Target

end Almanac.Relay
