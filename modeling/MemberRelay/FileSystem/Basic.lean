import MemberRelay.FileSystem.Error
import MemberRelay.FileSystem.Path
import MemberRelay.Text.Utf8

/-!
A tree of files, directories and symbolic links, and what operations on paths do to it.
-/

namespace MemberRelay

/-- The names from the root to a place in the tree. None of them is empty, `.` or `..`, and no link
is on the way. -/
abbrev Location := List String

/-- What stands at a place. -/
inductive Entry where
  | file (content : List UInt8)
  | directory
  | link (target : String)
  deriving DecidableEq, Repr

/-- The entries below the root, and the directory where relative paths start. -/
structure FileSystem where
  entries : List (Location × Entry) := []
  current : Location := []

namespace FileSystem

/-- The entry at a place; the root is a directory. -/
def get? (fs : FileSystem) (loc : Location) : Option Entry :=
  if loc = [] then some .directory else fs.entries.lookup loc

def insert (fs : FileSystem) (loc : Location) (e : Entry) : FileSystem :=
  { fs with entries := (loc, e) :: fs.entries.filter (·.1 ≠ loc) }

def erase (fs : FileSystem) (loc : Location) : FileSystem :=
  { fs with entries := fs.entries.filter (·.1 ≠ loc) }

/-- Where a path leads: to an entry, or to a free place in a directory. -/
inductive Target where
  | present (loc : Location) (e : Entry)
  | absent (loc : Location)
  deriving DecidableEq

def maxName : Nat := 255

def pathLimit : Nat := 4096

def maxLinks : Nat := 40

/-- Follows the names from `loc` through at most `links` links. A link at the end is followed if
`follow` says so. -/
def walk (fs : FileSystem) (follow : Bool) (links : Nat) (loc : Location) (names : List String) :
    Except SystemError Target :=
  match names with
  | [] =>
    match fs.get? loc with
    | some e => .ok (.present loc e)
    | none => .error .notFound
  | name :: rest =>
    if fs.get? loc ≠ some .directory then .error .notDirectory
    else if Path.isStay name then walk fs follow links loc rest
    else if name = ".." then walk fs follow links loc.dropLast rest
    else if maxName < name.utf8ByteSize then .error .nameTooLong
    else match fs.get? (loc ++ [name]) with
      | none => if rest = [] then .ok (.absent (loc ++ [name])) else .error .notFound
      | some (.link target) =>
        if rest = [] ∧ !follow then .ok (.present (loc ++ [name]) (.link target))
        else match links with
          | 0 => .error .tooManyLinks
          | links + 1 =>
            let path := Path.ofText target
            walk fs follow links (if path.absolute then [] else loc) (path.names ++ rest)
      | some _ => walk fs follow links (loc ++ [name]) rest
termination_by (links, names.length)

/-- Follows a path from the root or from the current directory. -/
def walkPath (fs : FileSystem) (follow : Bool) (p : Path) : Except SystemError Target :=
  fs.walk follow maxLinks (if p.absolute then [] else fs.current) p.names

/-- The path that a text is for the system. -/
def path? (s : String) : Except FileError Path :=
  if s.toList.contains '\x00' then .error .nulInPath
  else if s = "" then .error (.system .notFound)
  else if pathLimit ≤ s.utf8ByteSize then .error (.system .nameTooLong)
  else .ok (Path.ofText s)

def target (fs : FileSystem) (follow : Bool) (s : String) : Except FileError Target := do
  (fs.walkPath follow (← path? s)).mapError .system

def stat? (fs : FileSystem) (s : String) : Option Entry :=
  match fs.target true s with
  | .ok (.present _ e) => some e
  | _ => none

def contains (fs : FileSystem) (s : String) : Bool := (fs.stat? s).isSome

def read (fs : FileSystem) (s : String) : Except FileError (List UInt8) := do
  match ← fs.target true s with
  | .present _ (.file content) => .ok content
  | .present _ _ => .error (.system .isDirectory)
  | .absent _ => .error (.system .notFound)

def readText (fs : FileSystem) (s : String) : Except FileError String := do
  match Utf8.text? (← fs.read s) with
  | some text => .ok text
  | none => .error .notText

/-- Gives a file its content, and makes the file if there is none. -/
def write (fs : FileSystem) (s : String) (content : List UInt8) : Except FileError FileSystem := do
  match ← fs.target true s with
  | .present loc (.file _) => .ok (fs.insert loc (.file content))
  | .present _ _ => .error (.system .isDirectory)
  | .absent loc => .ok (fs.insert loc (.file content))

def make (fs : FileSystem) (p : Path) (e : Entry) : Except SystemError FileSystem := do
  match ← fs.walkPath false p.trimmed with
  | .present _ _ => .error .alreadyExists
  | .absent loc => .ok (fs.insert loc e)

def makeLink (fs : FileSystem) (s target : String) : Except FileError FileSystem := do
  (fs.make (← path? s) (.link target)).mapError .system

def remove (fs : FileSystem) (s : String) : Except FileError FileSystem := do
  match ← fs.target false s with
  | .present _ .directory => .error (.system .isDirectory)
  | .present loc _ => .ok (fs.erase loc)
  | .absent _ => .error (.system .notFound)

def isDirectory (fs : FileSystem) (p : Path) : Bool :=
  match fs.walkPath true p with
  | .ok (.present _ .directory) => true
  | _ => false

/-- Makes a directory, and for want of its parent the first of the ancestors that can be made. The
paths that are still to be made come back, the longest first. -/
def makeFirst (fs : FileSystem) : List Path → Except SystemError (FileSystem × List Path)
  | [] => .ok (fs, [])
  | p :: ps =>
    match fs.make p .directory with
    | .ok fs => .ok (fs, [])
    | .error e =>
      if e = .notFound then (makeFirst fs ps).map fun (fs, todo) => (fs, p :: todo)
      else if e = .alreadyExists ∧ fs.isDirectory p then .ok (fs, [])
      else .error e

/-- Makes directories one after the other up to the first that cannot be made. -/
def makeEach (fs : FileSystem) : List Path → FileSystem × Except SystemError Unit
  | [] => (fs, .ok ())
  | p :: ps =>
    match fs.make p .directory with
    | .ok fs => makeEach fs ps
    | .error e =>
      if e = .alreadyExists ∧ fs.isDirectory p then makeEach fs ps else (fs, .error e)

/-- Makes a directory with all that is missing on the way. What was made before an error stays. -/
def makeDirectories (fs : FileSystem) (s : String) : FileSystem × Except FileError Unit :=
  if s = "" then (fs, .ok ())
  else match path? s with
    | .error e => (fs, .error e)
    | .ok p =>
      match fs.makeFirst (p :: p.ancestors) with
      | .error e => (fs, .error (.system e))
      | .ok (fs, todo) =>
        let (fs, r) := fs.makeEach todo.reverse
        (fs, r.mapError .system)

/-- The paths of all entries below a directory, in the order of their characters. Those of
directories end in a slash. -/
def listing (fs : FileSystem) (dir : Location) : List String :=
  let below := fs.entries.filter fun (loc, _) => dir.isPrefixOf loc && loc ≠ dir
  let paths := below.map fun (loc, e) =>
    "/".intercalate (loc.drop dir.length) ++ (if e = .directory then "/" else "")
  paths.mergeSort fun a b => decide (a ≤ b)

end FileSystem

end MemberRelay
