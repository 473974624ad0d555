import MemberRelay.Machine

/-!
A client dials one target and sends calls there.
-/

namespace MemberRelay

/-- A client that got through to its target. -/
structure Client where
  /-- The address and port as they were asked for. -/
  address : String
  target : Uri

namespace Client

def target? (address : String) : Except Failure Uri :=
  match Uri.parse? ("http://" ++ address).toList with
  | some uri => .ok uri
  | none => .error (.invalidAddress s!"{address}: invalid URI")

/-- Dials an address on a port and gives up after a time. -/
def connect (net : Network) (host : String) (port : UInt16) (timeout : Duration) :
    Action Client := do
  let address := s!"{host}:{port}"
  let target ← Action.ofExcept (target? address)
  Action.contact (.dialed target timeout)
  match net.dial target timeout with
  | .silent => throw (.connect s!"{address}: timed out after {timeout.text}")
  | .failed reason => throw (.connect s!"{address}: {reason}")
  | .connected =>
    Action.report (.connected address)
    return ⟨address, target⟩

def defaultTimeout : Duration := ({} : ClientSettings).connectTimeout

/-- Dials an address on a port, for as long as settings that say nothing give. -/
def connectDefault (net : Network) (host : String) (port : UInt16) : Action Client :=
  connect net host port defaultTimeout

/-- Dials a host on the port and for the time of the settings. -/
def ofSettings (net : Network) (host : String) (s : ClientSettings) : Action Client :=
  connect net host s.port s.connectTimeout

/-- What a caller makes of the answer to a call. -/
def accept (m : Method) (answer : Except Status (List UInt8)) : Except Failure String :=
  (answer.bind (receive m.response)).mapError .call

/-- Calls a method and waits for the text of the answer. -/
def call (net : Network) (c : Client) (m : Method) (text : String) : Action String := do
  match net.peer? c.target with
  | none => throw (.call ⟨.unavailable, "tcp connect error"⟩)
  | some peer =>
    let (answer, events) := peer.answer m.path (m.request.encode text)
    events.forM Action.report
    Action.ofExcept (accept m answer)

/-- Sends a payload; yields the payload that comes back. -/
def send (net : Network) (c : Client) (payload : String) : Action String :=
  c.call net .send payload

def getVersion (net : Network) (c : Client) : Action String :=
  c.call net .getVersion ""

/-- Gives up the connection. -/
def close (c : Client) : Action Unit := Action.report (.releasing c.address)

end Client

end MemberRelay
