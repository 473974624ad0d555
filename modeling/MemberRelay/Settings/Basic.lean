import MemberRelay.Duration

/-!
The settings of the server and of the client, with their defaults.
-/

namespace MemberRelay

/-- The section `rpc`: whether and where the server listens. -/
structure RpcSettings where
  enabled : Bool := true
  listenAddress : String := "127.0.0.1"
  port : UInt16 := 50051
  deriving DecidableEq, Repr

/-- The section `client`: the port to dial and how long a dial may take. -/
structure ClientSettings where
  port : UInt16 := 50051
  connectTimeoutSecs : UInt64 := 10
  deriving DecidableEq, Repr

def ClientSettings.connectTimeout (s : ClientSettings) : Duration :=
  Duration.ofSecs s.connectTimeoutSecs.toNat

structure Settings where
  rpc : RpcSettings := {}
  client : ClientSettings := {}
  deriving DecidableEq, Repr

end MemberRelay
