import MemberRelay.Event
import MemberRelay.Failure
import MemberRelay.FileSystem.Basic
import MemberRelay.Network
import MemberRelay.Settings.Cell

/-!
The state that a run of the program works on, and the actions that change it. An action that fails
keeps what it changed before.
-/

namespace MemberRelay

/-- Everything a run can change, and the directory of its user. -/
structure Machine where
  files : FileSystem := {}
  home? : Option String := none
  cell : Cell := {}
  journal : List Event := []
  contacts : List Contact := []

/-- Changes a machine, and yields a value or fails. -/
abbrev Action (α : Type) := ExceptT Failure (StateM Machine) α

namespace Action

/-- Runs an action from a machine. -/
def runOn {α : Type} (action : Action α) (m : Machine) : Except Failure α × Machine :=
  StateT.run (ExceptT.run action) m

def report (e : Event) : Action Unit := modify fun m => { m with journal := m.journal ++ [e] }

def contact (c : Contact) : Action Unit := modify fun m => { m with contacts := m.contacts ++ [c] }

/-- The value of a result, or its failure. -/
def ofExcept {α : Type} : Except Failure α → Action α
  | .ok a => return a
  | .error e => throw e

/-- The value of an operation on files, or its failure. -/
def ofFileResult {α : Type} (r : Except FileError α) : Action α :=
  ofExcept (r.mapError fun e => .io e.message)

/-- Runs an action, and reports a failure before it passes it on. -/
def reportingFailure {α : Type} (text : Failure → String) (action : Action α) : Action α :=
  tryCatch action fun f => do
    report (.runFailed (text f))
    throw f

/-- The settings of this run, which are fixed from now on. -/
def settings : Action Settings := do
  let m ← get
  set { m with cell := m.cell.fixed }
  return m.cell.get

end Action

end MemberRelay
