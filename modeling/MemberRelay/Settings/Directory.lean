import MemberRelay.Machine
import MemberRelay.Settings.Decoding
import MemberRelay.Settings.Template

/-!
The directory of the settings file. A directory that is not there is made, with the template as its
file; one that is there stays as it is.
-/

namespace MemberRelay.Settings

def fileName : String := "settings.toml"

/-- The directory in a home that is used when none is asked for. -/
def defaultName : String := ".member-rpc"

/-- The directory that was asked for, or else the one in the home. -/
def chooseDirectory (asked? : Option String) : Action String := do
  match asked?, (← get).home? with
  | some path, _ => return path
  | none, some home => return Path.join home defaultName
  | none, none => throw (.io "home directory not found")

/-- Makes a directory with a settings file from the template. -/
def makeDirectory (dir : String) : Action Unit := do
  let (files, made) := (← get).files.makeDirectories dir
  modify fun m => { m with files := files }
  Action.ofFileResult made
  let path := Path.join dir fileName
  let files ← Action.ofFileResult ((← get).files.write path (Utf8.bytes template))
  modify fun m => { m with files := files }
  Action.report (.templateWritten path)

/-- The settings directory, which is made if nothing is there. -/
def prepareDirectory (asked? : Option String) : Action String := do
  let dir ← chooseDirectory asked?
  if !(← get).files.contains dir then makeDirectory dir
  return dir

def parse (text : String) : Except Failure Settings :=
  (ofToml text.toList).mapError fun e => .config (e.message text.toList)

def load (dir : String) : Action Settings := do
  let text ← Action.ofFileResult ((← get).files.readText (Path.join dir fileName))
  Action.ofExcept (parse text)

def fix (s : Settings) : Action Unit := do
  let cell ← Action.ofExcept ((← get).cell.set s)
  modify fun m => { m with cell := cell }

/-- Prepares the settings directory and takes the settings of this run from it. -/
def loadGlobal (asked? : Option String) : Action Unit := do
  let dir ← prepareDirectory asked?
  let s ← load dir
  Action.report (.settingsLoaded dir)
  fix s

end MemberRelay.Settings
