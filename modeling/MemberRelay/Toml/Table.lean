import MemberRelay.Number.Binary64
import MemberRelay.Toml.Span

/-!
Values and tables. A table remembers how it came about, since that decides who may still add to it:
a header opens a table once; dotted keys extend only tables that dotted keys made; a table in
braces is closed.
-/

namespace MemberRelay.Toml

/-- A name in a path, and where it stands. -/
structure Key where
  name : String
  span : Span

/-- A value without parts. A date or time keeps its text. -/
inductive Scalar where
  | boolean (b : Bool)
  | integer (n : Int)
  | float (x : Binary64)
  | string (s : String)
  | moment (text : String)

/-- What made a table: a header of its own, a longer header that passes through it, a dotted key,
or braces. -/
inductive Origin where
  | header
  | passing
  | dotted
  | braces
  deriving DecidableEq

/-- Entries in their order. The span is that of the header or the braces; other tables have none. -/
structure Table (ν : Type) where
  origin : Origin
  span : Option Span
  entries : List (Key × ν)

/-- A value of a document. `tables` are the tables of a header in double brackets. -/
inductive Value where
  | scalar (s : Scalar) (span : Span)
  | array (items : List Value) (span : Span)
  | table (t : Table Value)
  | tables (ts : List (Table Value))

/-- The span of a value; that of several tables runs from the first header on. -/
def Value.span? : Value → Option Span
  | scalar _ s => some s
  | array _ s => some s
  | table t => t.span
  | tables ts =>
    match ts.head?.bind Table.span, ts.getLast?.bind Table.span with
    | some first, some last => some ⟨first.start, last.stop⟩
    | _, _ => none

namespace Table

variable {ν : Type}

def empty (origin : Origin) : Table ν := ⟨origin, none, []⟩

def find? (t : Table ν) (name : String) : Option ν :=
  (t.entries.find? (·.1.name == name)).map (·.2)

def push (t : Table ν) (key : Key) (value : ν) : Table ν :=
  { t with entries := t.entries ++ [(key, value)] }

def set (t : Table ν) (name : String) (value : ν) : Table ν :=
  { t with entries := t.entries.map fun e => if e.1.name == name then (e.1, value) else e }

def erase (t : Table ν) (name : String) : Table ν :=
  { t with entries := t.entries.filter (·.1.name != name) }

/-- May dotted keys (`dotted`) or a header pass through a table into its entries? -/
def isOpen (dotted : Bool) (t : Table ν) : Bool :=
  match t.origin with
  | .header => !dotted
  | .passing => true
  | .dotted => true
  | .braces => false

/-- Changes the table at a path, making the tables on the way that are missing. The last table of
several stands for all of them. -/
def alter (dotted : Bool) (change : Table Value → Option (Table Value)) :
    List Key → Table Value → Option (Table Value)
  | [], t => change t
  | key :: path, t =>
    match t.find? key.name with
    | none =>
      (alter dotted change path (empty (if dotted then .dotted else .passing))).map fun child =>
        t.push key (.table child)
    | some (.table child) =>
      if child.isOpen dotted then
        (alter dotted change path child).map fun child => t.set key.name (.table child)
      else none
    | some (.tables ts) =>
      match ts.getLast? with
      | some child =>
        (alter dotted change path child).map fun child =>
          t.set key.name (.tables (ts.dropLast ++ [child]))
      | none => none
    | some _ => none

/-- A value under a dotted key. The name must be new, and a table that the key reaches through others
must have come from dotted keys. -/
def assign (path : List Key) (key : Key) (value : Value) (t : Table Value) :
    Option (Table Value) :=
  alter true (fun target =>
    if path.isEmpty = (target.origin = .dotted : Bool) then none
    else if (target.find? key.name).isSome then none
    else some (target.push key value)) path t

/-- Opens the table of a header. One that longer headers passed through keeps its entries and moves
to the end; any other must be new. -/
def openTable (path : List Key) (key : Key) (span : Span) (t : Table Value) :
    Option (Table Value) :=
  alter false (fun parent =>
    match parent.find? key.name with
    | none => some (parent.push key (.table ⟨.header, some span, []⟩))
    | some (.table child) =>
      if child.origin = .passing then
        some ((parent.erase key.name).push key (.table ⟨.header, some span, child.entries⟩))
      else none
    | some _ => none) path t

/-- Opens one more table of a header in double brackets. -/
def openElement (path : List Key) (key : Key) (span : Span) (t : Table Value) :
    Option (Table Value) :=
  alter false (fun parent =>
    match parent.find? key.name with
    | none => some (parent.push key (.tables [⟨.header, some span, []⟩]))
    | some (.tables ts) =>
      some (parent.set key.name (.tables (ts ++ [⟨.header, some span, []⟩])))
    | some _ => none) path t

/-- A table that now reaches to the end of a value in it. -/
def extend (value : Value) (t : Table Value) : Table Value :=
  match t.span, value.span? with
  | some s, some v => { t with span := some ⟨s.start, v.stop⟩ }
  | _, _ => t

end Table

end MemberRelay.Toml
