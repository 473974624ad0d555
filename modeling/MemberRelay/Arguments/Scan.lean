import MemberRelay.Arguments.Rejection
import MemberRelay.FileSystem.Path
import MemberRelay.Text.Utf8

/-!
Reading a command line from left to right. The first problem or request ends it. A value that
stands apart from its option is looked at when the next item begins, so that an unknown item right
after it comes first.
-/

namespace MemberRelay.Arguments

structure Values where
  directory? : Option String := none
  address? : Option String := none
  port? : Option UInt16 := none
  payload? : Option String := none
  deriving DecidableEq, Repr

namespace Values

def has (v : Values) : Slot → Bool
  | .option .directory => v.directory?.isSome
  | .option .address => v.address?.isSome
  | .option .port => v.port?.isSome
  | .payload => v.payload?.isSome

/-- Gives a place its value. -/
def assign (v : Values) (s : String) : Slot → Except Rejection Values
  | .option .directory => .ok { v with directory? := some s }
  | .option .address => .ok { v with address? := some s }
  | .option .port =>
    match port s with
    | .ok n => .ok { v with port? := some n }
    | .error e => .error (.invalidPort s e)
  | .payload => .ok { v with payload? := some s }

/-- Gives a place its value, once and as a text. -/
def put (v : Values) (slot : Slot) (bytes : List UInt8) : Except Rejection Values :=
  if v.has slot then .error (.repeated slot)
  else match Utf8.text? bytes with
    | none => .error .notText
    | some s => v.assign s slot

end Values

/-- What a level has read last and not looked at. -/
inductive Pending where
  | waiting (o : ValueOption)
  | given (slot : Slot) (bytes : List UInt8)
  deriving DecidableEq, Repr

/-- How far the reading of a level has come. -/
structure Progress where
  values : Values := {}
  pending? : Option Pending := none
  /-- Did two dashes end the options? -/
  escaped : Bool := false
  payloadSeen : Bool := false
  deriving DecidableEq, Repr

/-- What the name of a command starts. -/
inductive Opening where
  | command (scope : Scope)
  | help
  deriving DecidableEq, Repr

def Opening.ofBytes? (bytes : List UInt8) : Option Opening :=
  (Utf8.text? bytes).bind fun n =>
    if n = helpName then some .help else (Scope.ofName? n).map .command

namespace Progress

/-- The values with the last one looked at. -/
def settle (p : Progress) : Except Rejection Values :=
  match p.pending? with
  | none => .ok p.values
  | some (.waiting o) => .error (.missingValue o)
  | some (.given slot bytes) => p.values.put slot bytes

/-- The option that takes the next word, unless the options are over. -/
def waiting? (p : Progress) : Option ValueOption :=
  match p.escaped, p.pending? with
  | false, some (.waiting o) => some o
  | _, _ => none

/-- Begins an item that stays to be looked at. -/
def await (p : Progress) (pending : Pending) : Except Rejection Progress := do
  let values ← p.settle
  return { p with values := values, pending? := some pending }

def attach (p : Progress) (o : ValueOption) (bytes : List UInt8) : Except Rejection Progress := do
  let values ← (← p.settle).put (.option o) bytes
  return { p with values := values, pending? := none }

/-- The request that a flag makes. -/
def request (p : Progress) (scope : Scope) (f : Flag) : Except Rejection Progress := do
  let _ ← p.settle
  match f with
  | .help => throw (.helpRequested (.scope scope))
  | .version => throw (.versionRequested scope)

/-- One option with its value, where it is attached. -/
def switch (p : Progress) (scope : Scope) (s : Switch) (value? : Option (List UInt8)) :
    Except Rejection Progress :=
  match s, value? with
  | .value o, some bytes => p.attach o bytes
  | .value o, none => p.await (.waiting o)
  | .flag f, some bytes => .error (.unexpectedValue f (Utf8.lossy bytes))
  | .flag f, none => p.request scope f

def long (p : Progress) (scope : Scope) (name : List UInt8) (value? : Option (List UInt8)) :
    Except Rejection Progress :=
  match (Utf8.text? name).bind fun n => scope.switches.find? (·.long = n) with
  | some s => p.switch scope s value?
  | none => .error (.unknownArgument ("--" ++ Utf8.lossy name))

/-- The value after the letter of an option: what follows, without one equals sign in front. -/
def attachedValue? : List UInt8 → Option (List UInt8)
  | [] => none
  | 0x3D :: bytes => some bytes
  | bytes => some bytes

/-- Options by their letters, of which one with a value is the last. -/
def short (p : Progress) (scope : Scope) : List UInt8 → Except Rejection Progress
  | [] => .ok p
  | b :: bytes =>
    match Utf8.next b bytes with
    | (none, _) => .error (.unknownArgument ("-" ++ Utf8.lossy (b :: bytes)))
    | (some c, rest) =>
      match scope.switches.find? (·.short = c) with
      | none => .error (.unknownArgument (String.ofList ['-', c]))
      | some (.value o) => p.switch scope (.value o) (attachedValue? rest)
      | some (.flag f) => p.request scope f

/-- A word that has no place. Before a command it counts as a name for one, unless it is one that
came after the options. -/
def stray (scope : Scope) (bytes : List UInt8) : Rejection :=
  if scope = .top && (Opening.ofBytes? bytes).isNone then .unknownCommand (Utf8.lossy bytes)
  else .unknownArgument (Utf8.lossy bytes)

/-- A word of its own: the value of the option before it, or the payload. -/
def word (p : Progress) (scope : Scope) (bytes : List UInt8) : Except Rejection Progress :=
  match p.waiting? with
  | some o => .ok { p with pending? := some (.given (.option o) bytes) }
  | none =>
    if scope.takesPayload && !p.payloadSeen then
      (p.await (.given .payload bytes)).map ({ · with payloadSeen := true })
    else .error (stray scope bytes)

def splitLong (bytes : List UInt8) : List UInt8 × Option (List UInt8) :=
  match bytes.dropWhile (· ≠ 0x3D) with
  | [] => (bytes, none)
  | _ :: value => (bytes.takeWhile (· ≠ 0x3D), some value)

def argument (p : Progress) (scope : Scope) (bytes : List UInt8) : Except Rejection Progress :=
  if p.escaped then p.word scope bytes
  else match bytes with
    | [0x2D, 0x2D] => .ok { p with escaped := true }
    | 0x2D :: 0x2D :: bytes =>
      let (name, value?) := splitLong bytes
      p.long scope name value?
    | 0x2D :: b :: bytes => p.short scope (b :: bytes)
    | bytes => p.word scope bytes

end Progress

def Values.command (v : Values) : Scope → Except Rejection Command
  | .top => .error .missingCommand
  | .serve => .ok .serve
  | .send =>
    match v.address?, v.payload? with
    | some address, some payload => .ok (.send address v.port? payload)
    | some _, none => .error (.missingSlots [.payload])
    | none, some _ => .error (.missingSlots [.option .address])
    | none, none => .error (.missingSlots [.option .address, .payload])
  | .version =>
    match v.address? with
    | some address => .ok (.version address v.port?)
    | none => .error (.missingSlots [.option .address])

/-- The command after its name, and the directory that was asked for there. -/
def commandOf (scope : Scope) (args : List (List UInt8)) : Except Rejection Invocation := do
  let p ← args.foldlM (fun p bytes => Progress.argument p scope bytes) {}
  let v ← p.settle
  return ⟨v.directory?, ← v.command scope⟩

/-- The page that names after the help command ask for. -/
def helpOf : List (List UInt8) → Rejection
  | [] => .helpRequested (.scope .top)
  | name :: rest =>
    let page? := (Utf8.text? name).bind fun n =>
      if n = helpName then some Page.help else (Scope.ofName? n).map .scope
    match page?, rest with
    | none, _ => .unknownCommand (Utf8.lossy name)
    | some page, [] => .helpRequested page
    | some _, more :: _ => .unknownCommand (Utf8.lossy more)

/-- What a word opens, where it can open something. -/
def Progress.opening? (p : Progress) (bytes : List UInt8) : Option Opening :=
  if p.escaped || p.waiting?.isSome then none else Opening.ofBytes? bytes

/-- The command line before a command. -/
def scanFrom (p : Progress) : List (List UInt8) → Except Rejection Invocation
  | [] => do
    let v ← p.settle
    throw (if v.directory? = none then .nothingGiven else .missingCommand)
  | bytes :: rest =>
    match p.opening? bytes with
    | some .help => .error (helpOf rest)
    | some (.command scope) => do
      let inner ← commandOf scope rest
      let v ← p.settle
      return ⟨inner.directory? <|> v.directory?, inner.command⟩
    | none =>
      match p.argument .top bytes with
      | .ok p => scanFrom p rest
      | .error e => .error e

/-- The invocation on a command line, of which the first word is the name of the program. -/
def parse (args : List (List UInt8)) : Except Rejection Invocation := scanFrom {} args.tail

/-- The name that the program was called by: the last name on the way to it. -/
def calledAs? (args : List (List UInt8)) : Option String :=
  let names := (Path.pieces 0x2F (args.headD [])).filter fun n => n ≠ [] ∧ n ≠ [0x2E]
  (names.getLast?.bind Utf8.text?).filter (· ≠ "..")

end MemberRelay.Arguments
