/-!
What the program reports while it works.
-/

namespace MemberRelay

/-- How much a report matters. -/
inductive Level where
  | error
  | info
  | debug
  deriving DecidableEq, Repr

def Level.name : Level → String
  | error => "ERROR"
  | info => "INFO"
  | debug => "DEBUG"

inductive Event where
  | templateWritten (path : String)
  | settingsLoaded (directory : String)
  | serverStarting (address : String)
  | serverFailed (reason : String)
  | runFailed (text : String)
  | connected (address : String)
  | releasing (address : String)
  | payloadReceived (bytes : Nat)
  deriving DecidableEq, Repr

namespace Event

def level : Event → Level
  | serverFailed _ => .error
  | runFailed _ => .error
  | releasing _ => .debug
  | payloadReceived _ => .debug
  | _ => .info

def message : Event → String
  | templateWritten path => s!"Created settings file from template at {path}"
  | settingsLoaded directory => s!"Loaded settings from {directory}"
  | serverStarting address => s!"Starting RPC server on {address}"
  | serverFailed reason => s!"RPC server error: {reason}"
  | runFailed text => text
  | connected _ => "Connected to remote endpoint"
  | releasing _ => "Releasing connection"
  | payloadReceived _ => "Received json payload"

/-- The operation that a report belongs to, where it says so. -/
def method? : Event → Option String
  | connected _ => some "connect"
  | releasing _ => some "close"
  | payloadReceived _ => some "send"
  | _ => none

/-- The remote address in a report of its own field. -/
def address? : Event → Option String
  | connected address => some address
  | releasing address => some address
  | _ => none

def bytes? : Event → Option Nat
  | payloadReceived bytes => some bytes
  | _ => none

end Event

end MemberRelay
