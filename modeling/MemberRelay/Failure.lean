import MemberRelay.Status

/-!
What can go wrong, and the line that tells it.
-/

namespace MemberRelay

inductive Failure where
  /-- An address and port that make no target. -/
  | invalidAddress (text : String)
  | connect (text : String)
  /-- A remote call that did not end well. -/
  | call (status : Status)
  /-- A server that could not listen, or whose transport broke. -/
  | serve (text : String)
  /-- Settings that cannot be read, or come too late. -/
  | config (text : String)
  | io (text : String)
  deriving DecidableEq, Repr

def Failure.message : Failure → String
  | invalidAddress text => s!"Invalid address: {text}"
  | connect text => s!"Connection failed: {text}"
  | call status => s!"Remote call failed: {status.message} ({status.code.name})"
  | serve text => s!"RPC server error: {text}"
  | config text => s!"Configuration error: {text}"
  | io text => s!"IO error: {text}"

end MemberRelay
