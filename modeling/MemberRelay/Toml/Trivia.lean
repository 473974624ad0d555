import MemberRelay.Text.Reader

/-!
Blanks, line ends and comments.
-/

namespace MemberRelay.Toml

def isBlank (c : Char) : Bool := c = ' ' || c = '\t'

/-- Visible characters and the tab: all but the controls. -/
def isText (c : Char) : Bool :=
  c = '\t' || (0x20 ≤ c.toNat && c.toNat ≠ 0x7F)

def skipBlanks (cs : List Char) : List Char := cs.dropWhile isBlank

/-- The rest after a line end, a line feed with or without a carriage return before it. -/
def newline? : List Char → Option (List Char)
  | '\n' :: cs => some cs
  | '\r' :: '\n' :: cs => some cs
  | _ => none

/-- The rest after a comment, if there is one. -/
def skipComment : List Char → List Char
  | '#' :: cs => cs.dropWhile isText
  | cs => cs

/-- The rest after the end of a line: blanks, a comment, and a line end or the end of the text. -/
def endOfLine? (cs : List Char) : Option (List Char) :=
  match skipComment (skipBlanks cs) with
  | [] => some []
  | cs => newline? cs

/-- The rest after blanks, line ends and comments in any number; `inside` says that a comment is
open. A control character in a comment stays for the caller to refuse. -/
def skipFiller (inside : Bool) : List Char → List Char
  | [] => []
  | '\n' :: cs => skipFiller false cs
  | '\r' :: '\n' :: cs => skipFiller false cs
  | c :: cs =>
    if inside then
      if isText c then skipFiller true cs else c :: cs
    else if isBlank c then skipFiller false cs
    else if c = '#' then skipFiller true cs
    else c :: cs

end MemberRelay.Toml
