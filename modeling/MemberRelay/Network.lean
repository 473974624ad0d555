import MemberRelay.Net.SocketAddress
import MemberRelay.Net.Uri
import MemberRelay.Duration
import MemberRelay.Service.Hosting

/-!
The network as a program meets it: what comes of each dial, each call and each attempt to listen.
-/

namespace MemberRelay

inductive Dialed where
  | connected
  | failed (reason : String)
  /-- No answer within the time. -/
  | silent
  deriving DecidableEq, Repr

inductive Listened where
  | failed (reason : String)
  | ended
  | running
  deriving DecidableEq, Repr

structure Network where
  dial : Uri → Duration → Dialed
  /-- The services that calls to a target reach. -/
  peer? : Uri → Option Hosting
  listen : SocketAddress → Listened

/-- A network on which nobody can be reached and every address is free. -/
def Network.empty : Network where
  dial _ _ := .failed "transport error"
  peer? _ := none
  listen _ := .running

/-- What a program did on the network. -/
inductive Contact where
  | dialed (target : Uri) (timeout : Duration)
  | listened (address : SocketAddress)

end MemberRelay
