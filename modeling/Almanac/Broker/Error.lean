/-! Why a message channel refuses an operation or fails at it. -/

namespace Almanac.Broker

/-- Refusals and failures of message channels. -/
inductive QueueError where
  | notConnected
  | connection (text : String)
  | channel (text : String)
  /-- A message could not be published. -/
  | publish (text : String)
  /-- A delivery could not be settled. -/
  | ack (text : String)
  /-- The deliveries ended although nobody asked for it. -/
  | streamClosed
  | invalidConfig (text : String)
  deriving DecidableEq, Repr

/-- The text of a refusal or failure. -/
def QueueError.message : QueueError → String
  | .notConnected => "not connected"
  | .connection text => s!"connection error: {text}"
  | .channel text => s!"channel error: {text}"
  | .publish text => s!"publish failed: {text}"
  | .ack text => s!"acknowledgement failed: {text}"
  | .streamClosed => "delivery stream closed by broker"
  | .invalidConfig text => s!"invalid queue configuration: {text}"

end Almanac.Broker
