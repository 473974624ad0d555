import MemberRelay.Program

/-!
The command. It takes from the host what the settings directory shows, runs the program on that,
and gives back to the host what the program changed. No network is attached: a dial and an attempt
to listen both fail. What it tells of a wrong command line holds no advice.
-/

namespace MemberRelay.Main

/-- A host without a network. -/
def offline : Network := { Network.empty with listen := fun _ => .failed "transport error" }

/-- The places on the way from `loc` along names, the first of them first. -/
def places (loc : Location) : List String → List Location
  | [] => []
  | name :: names =>
    if Path.isStay name then places loc names
    else
      let next := if name = ".." then loc.dropLast else loc ++ [name]
      next :: places next names

/-- The places that a settings directory can show. -/
def placesOf (current : Location) (dir : String) : List Location :=
  let path := Path.ofText (Path.join dir Settings.fileName)
  if path.absolute then places [] path.names
  else places [] current ++ places current path.names

def textOf (loc : Location) : String := "/" ++ "/".intercalate loc

/-- What stands at a place of the host. -/
def probe (loc : Location) : IO (Option Entry) := do
  let path := (← IO.currentDir) / textOf loc
  if ← path.isDir then return some .directory
  if ← path.pathExists then return some (.file (← IO.FS.readBinFile path).toList)
  return none

/-- The file system as far as the places show it. -/
def snapshot (current : Location) (locs : List Location) : IO FileSystem :=
  locs.foldlM (fun files loc => do
    match ← probe loc with
    | some e => return files.insert loc e
    | none => return files) ⟨[], current⟩

/-- Gives the host what is new. -/
def store (before after : FileSystem) : IO Unit :=
  after.entries.reverse.forM fun (loc, e) => do
    if before.get? loc ≠ some e then
      match e with
      | .directory => IO.FS.createDirAll (textOf loc)
      | .file content => IO.FS.writeBinFile (textOf loc) content.toByteArray
      | .link _ => return

/-- The machine that the host is for a command line. -/
def machine (args : List (List UInt8)) : IO Machine := do
  let current := (Path.ofText (toString (← IO.currentDir))).steps
  let home? := (← IO.getEnv "HOME").filter (· ≠ "")
  let dir? := match Arguments.parse args with
    | .ok i => i.directory? <|> home?.map fun home => Path.join home Settings.defaultName
    | .error _ => none
  let files ← snapshot current ((dir?.map (placesOf current)).getD [])
  return { files, home? }

/-- Runs the program with the words after its name, and yields its exit code. -/
def run (words : List String) : IO UInt32 := do
  let args := (Arguments.programName :: words).map Utf8.bytes
  let before ← machine args
  let (outcome, after) := Program.run offline args before
  store before.files after.files
  match outcome with
  | .ended e =>
    (← IO.getStdout).putStr e.output
    (← IO.getStderr).putStr e.errors
    return e.code.toUInt32
  | .serving => return 0

end MemberRelay.Main

def main (words : List String) : IO UInt32 := MemberRelay.Main.run words
