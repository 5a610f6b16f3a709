import Almanac.Broker.Client
import Almanac.Dispatch.Error
import Almanac.Dispatch.Settings
import Almanac.Relay.Settings
import Almanac.Store.Storage

/-! Starting the programs.
Both programs need a message server, and none is within reach, so a start always ends in a failure.
Which one depends on the settings, which are checked in a fixed order.
-/

namespace Almanac.Startup

open Store Broker Dispatch Relay

/-- Why a program did not start: what it was about to do, and the chain of causes. -/
structure Failure where
  context : String
  causes : List String
  deriving DecidableEq, Repr

namespace Failure

/-- A text whose lines after the first are indented. -/
def indented (margin s : String) : String :=
  ("\n" ++ margin).intercalate (s.splitOn "\n")

/-- One cause by itself, or numbered causes. -/
def causeLines : List String → List String
  | [] => []
  | [cause] => ["    " ++ indented "    " cause]
  | causes => causes.mapIdx fun i cause => s!"    {i}: " ++ indented "       " cause

def text (f : Failure) : String :=
  "Error: " ++ f.context ++ "\n\nCaused by:\n"
    ++ String.join ((causeLines f.causes).map (· ++ "\n"))

end Failure

def failWith {ε α : Type} (context : String) (causes : ε → List String) (r : Except ε α)
    : Except Failure α :=
  r.mapError fun e => ⟨context, causes e⟩

/-- The chain of causes of a store's error. -/
def storeCauses (e : StoreError) : List String :=
  [e.message]

/-- The chain of causes of a channel's error. -/
def queueCauses (e : QueueError) : List String :=
  [e.message]

/-- The chain of causes of a scheduler's error. -/
def schedulerCauses (e : SchedulerError) : List String :=
  e.message ::
    match e with
    | .store cause => [cause.message]
    | .queue cause => [cause.message]
    | _ => []

/-- The chain of causes of a sender's error. -/
def senderCauses (e : SenderError) : List String :=
  e.message ::
    match e with
    | .queue cause => [cause.message]
    | .relay cause => [cause.message]
    | .invalidConfig _ => []

/-- The programs that can be started. -/
inductive Program where
  | scheduler
  | sender
  deriving DecidableEq, Repr

/-- Starting the loops over a server beyond reach. -/
def startLoops (s : Dispatch.Settings) (link : Link) : Except SchedulerError Unit :=
  if s.cycle.nanos = 0 then .error (.invalidConfig "work cycle must be greater than zero")
  else .error (.queue link.connectError)

/-- Starting the scheduler: storage, then the channel, then the loops. -/
def scheduler (env : Environment) : Except Failure Unit := do
  let storage ←
    failWith "Invalid storage configuration" storeCauses (Store.Settings.ofEnvironment env)
  let _ ← failWith "Failed to open event storage" storeCauses (Storage.ofSettings storage)
  let channel ←
    failWith "Invalid producer configuration" queueCauses
      (Broker.Settings.ofEnvironment "PRODUCER" env)
  failWith "Failed to start scheduler" schedulerCauses
    (startLoops (.ofEnvironment env) ⟨channel⟩)

/-- Starting the sender: its own settings, the channel to read, the channel to forward to if there
is one, then the run. -/
def sender (env : Environment) : Except Failure Unit := do
  let settings ←
    failWith "Invalid sender configuration" senderCauses (Relay.Settings.ofEnvironment env)
  let channel ←
    failWith "Invalid consumer configuration" queueCauses
      (Broker.Settings.ofEnvironment "CONSUMER" env)
  if settings.target = .queue then
    let _ ←
      failWith "Invalid relay queue configuration" queueCauses
        (Broker.Settings.ofEnvironment "RELAY" env)
  failWith "Sender failed" senderCauses
    (.error (.queue (Link.connectError ⟨channel⟩)) : Except SenderError Unit)

def start : Program → Environment → Except Failure Unit
  | .scheduler => scheduler
  | .sender => sender

/-- What a program leaves behind: its exit code and what it reports. -/
structure Exit where
  code : UInt8
  report : String
  deriving DecidableEq, Repr

/-- The end of a program started in an environment. -/
def exit (p : Program) (env : Environment) : Exit :=
  match start p env with
  | .ok _ => ⟨0, ""⟩
  | .error failure => ⟨1, failure.text⟩

end Almanac.Startup
