import Almanac.Address
import Almanac.Broker.Settings

/-! Channels over a message server.
Errors of the client library are told apart by whether they concern the connection. No server is
within reach, so connecting fails after the settings were checked, and a link never opens.
-/

namespace Almanac.Broker

/-- Errors of the client library. -/
inductive ClientError where
  | io (text : String)
  | connectionState (state : String)
  | channelState (state : String)
  | channel (number : Nat)
  | channelsLimit
  | missingHeartbeat
  deriving DecidableEq, Repr

namespace ClientError

/-- The client library's text of an error. -/
def message : ClientError → String
  | .io text => s!"IO error: {text}"
  | .connectionState state => s!"invalid connection state: {state}"
  | .channelState state => s!"invalid channel state: {state}"
  | .channel number => s!"invalid channel: {number}"
  | .channelsLimit => "the maximum number of channels for this connection has been reached"
  | .missingHeartbeat => "no heartbeat received from server for too long"

/-- An error of the client library as one of the message channel. -/
def toQueueError (e : ClientError) : QueueError :=
  match e with
  | .io _ | .connectionState _ => .connection e.message
  | _ => .channel e.message

end ClientError

/-- One end of a channel over a server beyond reach. It never has a session. -/
structure Link where
  settings : Settings
  deriving DecidableEq, Repr

namespace Link

/-- Why dialling an address fails. -/
def dialError (uri : String) : ClientError :=
  .io (if Address.isAbsolute uri then Address.beyondReach else Address.relative)

/-- Why connecting fails: the settings are refused, or else the server cannot be reached. -/
def connectError (l : Link) : QueueError :=
  match l.settings.validate with
  | .error e => e
  | .ok _ => .connection (dialError l.settings.uri).message

/-- Publishing, purging and consuming need a session. -/
def useError : QueueError :=
  .notConnected

/-- Closing a link without a session does nothing. -/
def close (l : Link) : Link :=
  l

end Link

end Almanac.Broker
