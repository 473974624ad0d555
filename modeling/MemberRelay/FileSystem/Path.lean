/-!
Paths: texts with slashes between names.
-/

namespace MemberRelay

/-- A path taken apart at its slashes. Names may be empty, `.` or `..`. -/
structure Path where
  absolute : Bool
  names : List String
  deriving DecidableEq, Repr

namespace Path

/-- The pieces between separators, of which there is one at least. -/
def pieces {α : Type} [DecidableEq α] (separator : α) : List α → List (List α)
  | [] => [[]]
  | c :: cs =>
    if c = separator then [] :: pieces separator cs
    else match pieces separator cs with
      | [] => [[c]]
      | p :: ps => (c :: p) :: ps

def ofText (s : String) : Path :=
  ⟨s.toList.head? = some '/', (pieces '/' s.toList).map String.ofList⟩

/-- The text of the path `name` in the directory `dir`. -/
def join (dir name : String) : String :=
  if dir = "" ∨ dir.toList.getLast? = some '/' then dir ++ name else dir ++ "/" ++ name

def isStay (name : String) : Bool := name = "" || name = "."

/-- The names that lead on; at the start of a relative path `.` is one of them. -/
def steps (p : Path) : List String :=
  match p.absolute, p.names with
  | false, "." :: names => "." :: names.filter (fun n => !isStay n)
  | _, names => names.filter (fun n => !isStay n)

/-- The paths that lead to a path, the longest first. -/
def ancestors (p : Path) : List Path :=
  let counts := (List.range p.steps.length).reverse
  (counts.filter (fun n => p.absolute || n ≠ 0)).map fun n => ⟨p.absolute, p.steps.take n⟩

/-- The path without slashes at its end. -/
def trimmed (p : Path) : Path :=
  ⟨p.absolute, (p.names.reverse.dropWhile (· = "")).reverse⟩

end Path

end MemberRelay
