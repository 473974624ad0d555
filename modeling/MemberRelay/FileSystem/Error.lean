/-!
What an operation on files can run into.
-/

namespace MemberRelay

/-- What the system says of the errors that files and addresses run into, with their numbers. -/
def systemErrorTexts : List (Int × String) := [
  (1, "Operation not permitted"),
  (2, "No such file or directory"),
  (13, "Permission denied"),
  (17, "File exists"),
  (20, "Not a directory"),
  (21, "Is a directory"),
  (22, "Invalid argument"),
  (36, "File name too long"),
  (40, "Too many levels of symbolic links"),
  (98, "Address already in use"),
  (111, "Connection refused")]

/-- An error that the system reports by its number. -/
structure SystemError where
  number : Int
  deriving DecidableEq, Repr

namespace SystemError

def notFound : SystemError := ⟨2⟩

def alreadyExists : SystemError := ⟨17⟩

def notDirectory : SystemError := ⟨20⟩

def isDirectory : SystemError := ⟨21⟩

def nameTooLong : SystemError := ⟨36⟩

def tooManyLinks : SystemError := ⟨40⟩

/-- The text of an error and its number, which is all that is told of an error without a text. -/
def message (e : SystemError) : String :=
  let text := (systemErrorTexts.lookup e.number).getD s!"Unknown error {e.number}"
  s!"{text} (os error {e.number})"

end SystemError

inductive FileError where
  | system (e : SystemError)
  | nulInPath
  | notText
  deriving DecidableEq, Repr

def FileError.message : FileError → String
  | system e => e.message
  | nulInPath => "file name contained an unexpected NUL byte"
  | notText => "stream did not contain valid UTF-8"

end MemberRelay
