import MemberRelay.Text.Utf8

/-!
What is left of a text when the characters that only steer a terminal are taken out.
-/

namespace MemberRelay.Terminal

/-- Where a reader is in a text: outside, or inside one kind of control sequence. -/
inductive Mode where
  | plain
  | escape
  | intermediate
  | parameters
  /-- At the head of a device control, before its parameters. -/
  | deviceEntry
  | deviceParameters
  | deviceIntermediate
  /-- In a string that a bell does not end; the body of a device control is one. -/
  | string
  /-- In a string that a bell ends. -/
  | bellString
  deriving DecidableEq, Repr

def isSpace (c : Char) : Bool := c = '\t' || c = '\n' || c = '\x0c' || c = '\r'

/-- Is a character shown? Outside of sequences all are but the controls below U+0080 that are not
white space; inside a short sequence only such white space is, and in a string nothing. -/
def isShown (mode : Mode) (c : Char) : Bool :=
  match mode with
  | .plain => isSpace c || (' ' ≤ c && c ≠ '\x7f')
  | .escape | .intermediate | .parameters => isSpace c
  | _ => false

/-- The byte that ends a string. Among the bytes of a character it does so too. -/
def terminator : UInt8 := 0x9C

/-- Where a printable ASCII character leads. -/
def nextPrintable (mode : Mode) (c : Char) : Mode :=
  match mode with
  | .plain => .plain
  | .escape =>
    if c < '0' then .intermediate
    else if c = '[' then .parameters
    else if c = ']' then .bellString
    else if c = 'P' then .deviceEntry
    else if c = 'X' || c = '^' || c = '_' then .string
    else .plain
  | .intermediate => if c < '0' then .intermediate else .plain
  | .parameters => if c < '@' then .parameters else .plain
  | .deviceEntry =>
    if c < '0' then .deviceIntermediate else if c < '@' then .deviceParameters else .string
  | .deviceParameters =>
    if c < '0' then .deviceIntermediate else if c < '<' then .deviceParameters else .string
  | .deviceIntermediate => if c < '0' then .deviceIntermediate else .string
  | .string => .string
  | .bellString => .bellString

/-- Where a character that is not shown leads. -/
def next (mode : Mode) (c : Char) : Mode :=
  if c = '\x1b' then .escape
  else if c = '\x18' || c = '\x1a' then .plain
  else if c < ' ' || c = '\x7f' then if mode = .bellString && c = '\x07' then .plain else mode
  else if c < '\x80' then nextPrintable mode c
  else if mode = .string && (Utf8.bytes (String.singleton c)).contains terminator then .plain
  else mode

def shownFrom : Mode → List Char → List Char
  | _, [] => []
  | mode, c :: cs =>
    if isShown mode c then c :: shownFrom .plain cs else shownFrom (next mode c) cs

/-- The text that is shown. A sequence that is still open at the end is taken out too. -/
def shown (s : String) : String := String.ofList (shownFrom .plain s.toList)

end MemberRelay.Terminal
