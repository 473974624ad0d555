import MemberRelay.Arguments.Command
import MemberRelay.Client
import MemberRelay.Server

/-!
What each command does, once the settings of the run are there.
-/

namespace MemberRelay

/-- What a command comes to when it does not fail. -/
inductive Finish where
  /-- It is done, and may have something to print. -/
  | done (output? : Option String)
  /-- It serves on. -/
  | serving
  deriving DecidableEq, Repr

namespace Run

/-- The client settings of this run, with another port if one is given. -/
def clientSettings (port? : Option UInt16) : Action ClientSettings := do
  let s := (← Action.settings).client
  return { s with port := port?.getD s.port }

/-- Dials a host, calls once, and gives the connection up. -/
def callOnce (net : Network) (host : String) (port? : Option UInt16)
    (use : Client → Action String) : Action Finish := do
  let client ← Client.ofSettings net host (← clientSettings port?)
  let output ← use client
  client.close
  return .done (some output)

/-- Serves where the settings of this run say, if they want a server. -/
def serve (net : Network) : Action Finish := do
  if !(← Server.isEnabled) then throw (.config "rpc server is disabled in settings")
  if ← (← Server.ofGlobal).start net then return .serving else return .done none

def command (net : Network) : Arguments.Command → Action Finish
  | .serve => serve net
  | .send host port? payload => callOnce net host port? (·.send net payload)
  | .version host port? => callOnce net host port? (·.getVersion net)

end Run

end MemberRelay
