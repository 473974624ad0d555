import MemberRelay.Toml.Value

/-!
Documents: the statements of a text, and the table that they build.
-/

namespace MemberRelay.Toml

/-- A line of a document that says something. -/
inductive Statement where
  | assign (a : Assignment)
  | openTable (path : List Key) (key : Key) (span : Span)
  | openElement (path : List Key) (key : Key) (span : Span)

def header? (cs : List Char) : Option (Statement × List Char) :=
  match cs with
  | '[' :: '[' :: inner => do
    let ((path, key), rest) ← key? inner
    let rest ← Reader.literal? [']', ']'] rest
    some (.openElement path key ⟨cs, rest⟩, rest)
  | '[' :: inner => do
    let ((path, key), rest) ← key? inner
    let rest ← Reader.literal? [']'] rest
    some (.openTable path key ⟨cs, rest⟩, rest)
  | _ => none

/-- One statement with the end of its line. -/
def statement? (cs : List Char) : Option (Statement × List Char) := do
  let (s, rest) ← match cs with
    | '[' :: _ => header? cs
    | _ => (assignment? (value? (depthLimit - 1)) cs).map fun (a, rest) => (.assign a, rest)
  some (s, ← endOfLine? rest)

/-- The statements of a text of at most `fuel` lines; `done` holds those before, the last one
first. -/
def statementsFrom (done : List Statement) : Nat → List Char → Option (List Statement)
  | 0, _ => none
  | fuel + 1, cs =>
    match skipBlanks cs with
    | [] => some done.reverse
    | '#' :: cs => (endOfLine? ('#' :: cs)).bind (statementsFrom done fuel)
    | cs =>
      match newline? cs with
      | some rest => statementsFrom done fuel rest
      | none => do
        let (s, rest) ← statement? cs
        statementsFrom (s :: done) fuel rest

/-- The statements of a text, which may start with a byte order mark. -/
def statements? : List Char → Option (List Statement)
  | '\uFEFF' :: cs => statementsFrom [] (cs.length + 1) cs
  | cs => statementsFrom [] (cs.length + 1) cs

/-- A document in the making: its table, and the path of the table that a header opened last. -/
structure Draft where
  root : Table Value
  current : List Key

/-- Changes the table that is open now, or the last of several. -/
def Table.within (change : Table Value → Option (Table Value)) :
    List Key → Table Value → Option (Table Value)
  | [], t => change t
  | key :: path, t =>
    match t.find? key.name with
    | some (.table child) =>
      (within change path child).map fun child => t.set key.name (.table child)
    | some (.tables ts) =>
      ts.getLast?.bind fun child => (within change path child).map fun child =>
        t.set key.name (.tables (ts.dropLast ++ [child]))
    | _ => none

/-- What a statement does to a document. -/
def Draft.add (d : Draft) : Statement → Option Draft
  | .assign a =>
    (d.root.within (fun t => (t.extend a.value).assign a.path a.key a.value) d.current).map
      (⟨·, d.current⟩)
  | .openTable path key span => (d.root.openTable path key span).map (⟨·, path ++ [key]⟩)
  | .openElement path key span => (d.root.openElement path key span).map (⟨·, path ++ [key]⟩)

/-- The table that statements build, unless two of them are at odds. -/
def ofStatements? (statements : List Statement) : Option (Table Value) :=
  (statements.foldlM Draft.add ⟨Table.empty .header, []⟩).map Draft.root

/-- The table of a document; `none` if the text is not one. -/
def document? (source : List Char) : Option (Table Value) := statements? source >>= ofStatements?

end MemberRelay.Toml
