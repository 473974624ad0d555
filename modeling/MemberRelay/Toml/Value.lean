import MemberRelay.Toml.Moment
import MemberRelay.Toml.Number
import MemberRelay.Toml.Table
import MemberRelay.Toml.Text

/-!
Reading keys and values. Arrays and braces nest to a depth below eighty, and a key has fewer than
eighty parts.
-/

namespace MemberRelay.Toml

/-- Nesting and keys stay below this. -/
def depthLimit : Nat := 80

def isBareKeyChar (c : Char) : Bool := c.isAlphanum || c = '-' || c = '_'

/-- One part of a key, bare or quoted. -/
def keyPart? (cs : List Char) : Option (Key × List Char) :=
  match cs.takeWhile isBareKeyChar with
  | [] => (lineString? cs).map fun (name, rest) => (⟨String.ofList name, cs, rest⟩, rest)
  | name =>
    let rest := cs.dropWhile isBareKeyChar
    some (⟨String.ofList name, cs, rest⟩, rest)

/-- A key of at most so many parts with points between them, and the blanks around them. -/
def keyFrom? : Nat → Reader (List Key)
  | 0, _ => none
  | limit + 1, cs => do
    let (key, rest) ← keyPart? (skipBlanks cs)
    match skipBlanks rest with
    | '.' :: rest =>
      let (keys, rest) ← keyFrom? limit rest
      some (key :: keys, rest)
    | rest => some ([key], rest)

/-- A key, as the path to its last part and that part. -/
def key? : Reader (List Key × Key) := fun cs => do
  let (keys, rest) ← keyFrom? (depthLimit - 1) cs
  let last ← keys.getLast?
  some ((keys.dropLast, last), rest)

structure Assignment where
  path : List Key
  key : Key
  value : Value

def assignment? (value? : Reader Value) : Reader Assignment := fun cs => do
  let ((path, key), rest) ← key? cs
  let (value, rest) ← value? (skipBlanks (← Reader.literal? ['='] rest))
  some (⟨path, key, value⟩, rest)

/-- The items of an array after its bracket, at most `fuel` of them; a comma may stand after the
last one. -/
def itemsFrom (item? : Reader Value) (done : List Value) : Nat → Reader (List Value)
  | 0, _ => none
  | fuel + 1, cs =>
    match skipFiller false cs with
    | ']' :: rest => some (done.reverse, rest)
    | cs => do
      let (item, rest) ← item? cs
      match skipFiller false rest with
      | ',' :: rest => itemsFrom item? (item :: done) fuel rest
      | ']' :: rest => some ((item :: done).reverse, rest)
      | _ => none

/-- The assignments between braces after the first one is due, at most `fuel` of them. -/
def assignmentsFrom (value? : Reader Value) (done : List Assignment) :
    Nat → Reader (List Assignment)
  | 0, _ => none
  | fuel + 1, cs => do
    let (a, rest) ← assignment? value? cs
    match skipBlanks rest with
    | ',' :: rest => assignmentsFrom value? (a :: done) fuel rest
    | '\x7d' :: rest => some ((a :: done).reverse, rest)
    | _ => none

/-- The assignments of a table in braces, after the opening one. -/
def braced? (value? : Reader Value) : Reader (List Assignment) := fun cs =>
  match skipBlanks cs with
  | '\x7d' :: rest => some ([], rest)
  | _ => assignmentsFrom value? [] cs.length cs

/-- The table of the assignments between braces. -/
def ofAssignments? (assignments : List Assignment) : Option (Table Value) :=
  assignments.foldlM (fun t a => t.assign a.path a.key a.value) (Table.empty .braces)

def scalar? : Reader Scalar := fun cs =>
  match cs with
  | 't' :: 'r' :: 'u' :: 'e' :: rest => some (.boolean true, rest)
  | 'f' :: 'a' :: 'l' :: 's' :: 'e' :: rest => some (.boolean false, rest)
  | '"' :: _ => (string? cs).map fun (s, rest) => (.string (String.ofList s), rest)
  | '\'' :: _ => (string? cs).map fun (s, rest) => (.string (String.ofList s), rest)
  | _ =>
    match moment? cs with
    | some rest => some (.moment (String.ofList (Span.mk cs rest).text), rest)
    | none => (number? cs).map fun
      | (.integer n, rest) => (.integer n, rest)
      | (.float x, rest) => (.float x, rest)

/-- A value in which arrays and braces nest at most `depth` deep. -/
def value? : Nat → Reader Value
  | 0, cs => (scalar? cs).map fun (s, rest) => (.scalar s ⟨cs, rest⟩, rest)
  | depth + 1, cs =>
    match cs with
    | '[' :: inner => do
      let (items, rest) ← itemsFrom (value? depth) [] inner.length inner
      some (.array items ⟨cs, rest⟩, rest)
    | '\x7b' :: inner => do
      let (assignments, rest) ← braced? (value? depth) inner
      let t ← ofAssignments? assignments
      some (.table { t with span := some ⟨cs, rest⟩ }, rest)
    | _ => (scalar? cs).map fun (s, rest) => (.scalar s ⟨cs, rest⟩, rest)

end MemberRelay.Toml
