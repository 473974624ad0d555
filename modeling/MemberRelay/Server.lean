import MemberRelay.Machine

/-!
A server listens on the address of its settings.
-/

namespace MemberRelay

/-- Where a server is to listen. -/
structure Server where
  listenAddress : String
  port : UInt16
  deriving DecidableEq, Repr

namespace Server

def ofSettings (s : RpcSettings) : Server := ⟨s.listenAddress, s.port⟩

/-- The server of this run's settings. -/
def ofGlobal : Action Server := return ofSettings (← Action.settings).rpc

/-- Do the settings of this run want a server? -/
def isEnabled : Action Bool := return (← Action.settings).rpc.enabled

/-- The address to listen on. -/
def socketAddress (s : Server) : Except Failure SocketAddress :=
  let text := s!"{s.listenAddress}:{s.port}"
  match SocketAddress.parse? text.toList with
  | some address => .ok address
  | none => .error (.invalidAddress s!"{text}: invalid socket address syntax")

/-- Listens, and says whether the server stays up. -/
def start (net : Network) (s : Server) : Action Bool := do
  let address ← Action.ofExcept s.socketAddress
  Action.report (.serverStarting (String.ofList address.text))
  Action.contact (.listened address)
  match net.listen address with
  | .running => return true
  | .ended => return false
  | .failed reason =>
    Action.report (.serverFailed reason)
    throw (.serve reason)

end Server

end MemberRelay
