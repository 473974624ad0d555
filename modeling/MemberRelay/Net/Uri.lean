import MemberRelay.Net.IpAddress

/-!
Where a client dials: the URI `http://` and an authority, with a path and a query that dialing does
not look at. The authority is scanned once from left to right.
-/

namespace MemberRelay

namespace Authority

/-- May `c` stand in an authority? The percent sign has its own rule. -/
def isChar (c : Char) : Bool :=
  c.isAlphanum || "!$&'()*+,-.:;=@[]_~".toList.contains c

def isEnd (c : Char) : Bool := c = '/' || c = '?' || c = '#'

/-- What a scan of an authority has seen: the colons and whether a percent sign came since the last
`@` or `]`, and the brackets. -/
structure Scan where
  colons : Nat := 0
  percent : Bool := false
  opened : Bool := false
  closed : Bool := false
  deriving DecidableEq, Repr

/-- One character more, unless it cannot stand there. -/
def Scan.step (s : Scan) (c : Char) : Option Scan :=
  if c = ':' then if 8 ≤ s.colons then none else some { s with colons := s.colons + 1 }
  else if c = '[' then if s.percent || s.opened then none else some { s with opened := true }
  else if c = ']' then
    if !s.opened || s.closed then none
    else some { s with closed := true, colons := 0, percent := false }
  else if c = '@' then some { s with colons := 0, percent := false }
  else if c = '%' then some { s with percent := true }
  else if isChar c then some s
  else none

def Scan.isComplete (s : Scan) : Bool :=
  s.opened = s.closed && s.colons ≤ 1 && !s.percent

def isValid (cs : List Char) : Bool :=
  match cs.foldlM Scan.step {} with
  | some s => cs ≠ [] && s.isComplete && cs.getLast? ≠ some '@'
  | none => false

/-- The characters after the last `@`. -/
def afterUser (cs : List Char) : List Char := (cs.reverse.takeWhile (· ≠ '@')).reverse

end Authority

structure Uri where
  authority : List Char
  isValid : Authority.isValid authority = true

namespace Uri

def isPathChar (c : Char) : Bool :=
  let n := c.toNat
  n = 0x21 || n = 0x22 || (0x24 ≤ n && n ≤ 0x3B) || n = 0x3D || (0x40 ≤ n && n ≤ 0x5F) ||
    (0x61 ≤ n && n ≤ 0x7E) || 0x80 ≤ n

def isQueryChar (c : Char) : Bool :=
  let n := c.toNat
  n = 0x21 || (0x24 ≤ n && n ≤ 0x3B) || n = 0x3D || (0x3F ≤ n && n ≤ 0x7E) || 0x80 ≤ n

/-- Can a path, a query and a fragment, each after its mark, follow an authority? -/
def isTail (cs : List Char) : Bool :=
  let path := cs.takeWhile (fun c => !(c = '?' || c = '#'))
  path.all isPathChar &&
    match cs.dropWhile (fun c => !(c = '?' || c = '#')) with
    | '?' :: query => (query.takeWhile (· ≠ '#')).all isQueryChar
    | _ => true

def maxBytes : Nat := 65534

def parse? (cs : List Char) : Option Uri := do
  let rest ← Reader.literal? "http://".toList cs
  let authority := rest.takeWhile (fun c => !Authority.isEnd c)
  if h : Authority.isValid authority then
    if (String.ofList cs).utf8ByteSize ≤ maxBytes ∧
        isTail (rest.dropWhile (fun c => !Authority.isEnd c)) then
      some ⟨authority, h⟩
    else none
  else none

/-- The host: what stands in brackets, or what comes before the first colon. -/
def host (uri : Uri) : List Char :=
  match Authority.afterUser uri.authority with
  | '[' :: cs => '[' :: cs.takeWhile (· ≠ ']') ++ [']']
  | cs => cs.takeWhile (· ≠ ':')

def schemePort : UInt16 := 80

/-- The characters without one plus sign in front. -/
def withoutPlus : List Char → List Char
  | '+' :: cs => cs
  | cs => cs

/-- A port in decimal, which may have a plus sign in front. -/
def port? (cs : List Char) : Option UInt16 :=
  let ds := withoutPlus cs
  if ds ≠ [] ∧ ds.all (Digits.isDigit 10) then (Digits.below? 10 UInt16.size ds).map Nat.toUInt16
  else none

/-- The port after the last colon, or that of the scheme if none is there. -/
def port (uri : Uri) : UInt16 :=
  if uri.authority.contains ':' then
    (port? (uri.authority.reverse.takeWhile (· ≠ ':')).reverse).getD schemePort
  else schemePort

/-- The address that the host is, where it is no name. -/
def hostAddress? (uri : Uri) : Option IpAddress :=
  let inner := uri.host.dropWhile (· = '[')
  IpAddress.parse? (inner.reverse.dropWhile (· = ']')).reverse

end Uri

end MemberRelay
