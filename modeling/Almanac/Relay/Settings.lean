import Almanac.Broker.Error
import Almanac.Environment
import Almanac.Event.Notification
import Almanac.Text.Blank

/-! Settings of the sender, and why it fails. -/

namespace Almanac.Relay

open Time Broker

/-- Why a notification was not relayed, or its target not reached. -/
inductive RelayError where
  | codec (cause : CodecError)
  | queue (cause : QueueError)
  | rejected (text : String)
  deriving DecidableEq, Repr

def RelayError.message : RelayError → String
  | .codec cause => cause.message
  | .queue cause => "downstream queue: " ++ cause.message
  | .rejected text => s!"rejected: {text}"

/-- Why a sender's run fails. -/
inductive SenderError where
  | queue (cause : QueueError)
  | relay (cause : RelayError)
  | invalidConfig (text : String)
  deriving DecidableEq, Repr

def SenderError.message : SenderError → String
  | .queue cause => "queue error: " ++ cause.message
  | .relay cause => "relay error: " ++ cause.message
  | .invalidConfig text => s!"invalid sender configuration: {text}"

/-- Where notifications are relayed to. -/
inductive TargetKind where
  | log
  | queue
  deriving DecidableEq, Repr

namespace TargetKind

def name : TargetKind → String
  | .log => "log"
  | .queue => "queue"

def ofName? : String → Option TargetKind
  | "log" => some .log
  | "queue" => some .queue
  | _ => none

/-- Reads a kind in either case, any blanks around it. -/
def ofText (s : String) : Except SenderError TargetKind :=
  let name := (Text.trim s).toLower
  match ofName? name with
  | some kind => .ok kind
  | none => .error (.invalidConfig s!"unknown relay '{name}' (expected one of: log, queue)")

end TargetKind

/-- How many workers handle deliveries, where to, and how long a message whose relay failed waits
before it returns to its queue. -/
structure Settings where
  workers : UInt64 := 1
  target : TargetKind := .log
  retryDelay : Delay := .ofSeconds 5
  deriving DecidableEq, Repr

namespace Settings

/-- The settings with another number of workers, at least one. -/
def withWorkers (s : Settings) (workers : UInt64) : Settings :=
  { s with workers := if workers = 0 then 1 else workers }

/-- The names of the fields in documents, in their order. -/
def fieldNames : List String :=
  ["concurrency", "relay", "retry_delay"]

def toJson (s : Settings) : Except WriteError Json :=
  (Json.ofDelay s.retryDelay).map fun retryDelay =>
    .record [("concurrency", .int s.workers.toNat), ("relay", .text s.target.name),
      ("retry_delay", retryDelay)]

/-- The sender settings that a document gives. -/
def ofJson? (v : Json) : Option Settings := do
  let fields ← v.fields? fieldNames
  let workers ← Json.required? fields "concurrency" (Json.natUpTo? 18446744073709551615)
  let target ← Json.required? fields "relay" fun v => v.case?.bind TargetKind.ofName?
  let retryDelay ← Json.required? fields "retry_delay" Json.delay?
  some { workers := .ofNat workers, target, retryDelay }

def ofEnvironment (env : Environment) : Except SenderError Settings := do
  let defaults : Settings := {}
  let target ←
    match env.get? "SENDER_RELAY" with
    | some text => TargetKind.ofText text
    | none => .ok defaults.target
  let workers := (env.number? "SENDER_THREADS" 18446744073709551615).map UInt64.ofNat
  let retryDelay := (env.number? "SENDER_RETRY_DELAY_MS" 18446744073709551615).map Delay.ofMillis
  .ok
    (({ target, retryDelay := retryDelay.getD defaults.retryDelay } : Settings).withWorkers
      (workers.getD defaults.workers))

end Settings

end Almanac.Relay
