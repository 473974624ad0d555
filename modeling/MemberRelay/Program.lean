import MemberRelay.Arguments.Scan
import MemberRelay.Run
import MemberRelay.Settings.Directory

/-!
A whole run: the command line, the settings, the command.
-/

namespace MemberRelay

/-- How a run ends, and what it has printed by then. -/
structure Ending where
  code : Nat
  output : String := ""
  errors : String := ""
  deriving DecidableEq, Repr

inductive Outcome where
  | ended (e : Ending)
  | serving
  deriving DecidableEq, Repr

namespace Program

/-- The last line of every account of a wrong command line. -/
def hint : String := "For more information, try '--help'."

/-- The end of a run without an invocation. The account of an error is its message, the advice and the
hint. -/
def reject (advice : String) (program? : Option String) (r : Arguments.Rejection) : Ending :=
  let text := r.message program?
  if r.isRequest then ⟨r.exitCode, text, ""⟩
  else if r.isPage then ⟨r.exitCode, "", text⟩
  else ⟨r.exitCode, "", s!"{text}\n\n{advice}{hint}\n"⟩

/-- The settings are read, then the command runs. -/
def invoke (net : Network) (i : Arguments.Invocation) : Action Finish := do
  Action.reportingFailure (fun f => s!"Failed to initialize settings: {f.message}")
    (Settings.loadGlobal i.directory?)
  Action.reportingFailure Failure.message (Run.command net i.command)

/-- What a run comes to after its command. A failure is told in the reports
only. -/
def conclude : Except Failure Finish → Outcome
  | .ok (.done (some text)) => .ended ⟨0, text ++ "\n", ""⟩
  | .ok (.done none) => .ended ⟨0, "", ""⟩
  | .ok .serving => .serving
  | .error _ => .ended ⟨1, "", ""⟩

/-- A run with the words of a command line. -/
def run (net : Network) (args : List (List UInt8)) (m : Machine)
    (advice : Arguments.Advice := fun _ _ => "") : Outcome × Machine :=
  match Arguments.parse args with
  | .error r => (.ended (reject (advice args r) (Arguments.calledAs? args) r), m)
  | .ok i =>
    let (result, m) := (invoke net i).runOn m
    (conclude result, m)

end Program

end MemberRelay
