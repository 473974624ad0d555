import MemberRelay.Net.IpAddress

/-!
Where a server listens: an internet address and a port.
-/

namespace MemberRelay

/-- An address with a port; one of the second kind may name the link it is meant on. -/
inductive SocketAddress where
  | v4 (ip : Ipv4) (port : UInt16)
  | v6 (ip : Ipv6) (scope : UInt32) (port : UInt16)
  deriving DecidableEq, Repr

namespace SocketAddress

def port : SocketAddress → UInt16
  | v4 _ port => port
  | v6 _ _ port => port

/-- Is it every address of the host? -/
def isUnspecified : SocketAddress → Bool
  | v4 ip _ => ip = Ipv4.unspecified
  | v6 ip _ _ => ip = Ipv6.unspecified

/-- Do two addresses stand for the same host, whatever their ports? -/
def sameHost : SocketAddress → SocketAddress → Bool
  | v4 ip _, v4 ip' _ => ip = ip'
  | v6 ip _ _, v6 ip' _ _ => ip = ip'
  | _, _ => false

/-- The number of the link, unless it is zero. -/
def scopeText (scope : UInt32) : List Char :=
  if scope = 0 then [] else '%' :: Digits.decimal scope.toNat

/-- The text of an address, a second kind one in brackets. -/
def text : SocketAddress → List Char
  | v4 ip port => ip.text ++ ':' :: Digits.decimal port.toNat
  | v6 ip scope port =>
    '[' :: ip.text ++ scopeText scope ++ ']' :: ':' :: Digits.decimal port.toNat

/-- One decimal digit or more that spell a number below `bound`. -/
def number? (bound : Nat) : Reader Nat := fun cs =>
  match Digits.run 10 cs with
  | ([], _) => none
  | (ds, rest) => (Digits.below? 10 bound ds).map fun n => (n, rest)

/-- The port after a colon, which ends the text. -/
def port? (cs : List Char) : Option UInt16 := do
  let (n, rest) ← number? UInt16.size (← Reader.literal? [':'] cs)
  if rest = [] then some n.toUInt16 else none

/-- The number of the link after a percent sign; zero if there is none. -/
def scope (cs : List Char) : UInt32 × List Char :=
  match Reader.literal? ['%'] cs >>= number? UInt32.size with
  | some (n, rest) => (n.toUInt32, rest)
  | none => (0, cs)

def parseV4? (cs : List Char) : Option SocketAddress := do
  let (ip, rest) ← Ipv4.read? cs
  some (.v4 ip (← port? rest))

def parseV6? (cs : List Char) : Option SocketAddress := do
  let (ip, rest) ← Ipv6.read? (← Reader.literal? ['['] cs)
  let (scope, rest) := scope rest
  some (.v6 ip scope (← port? (← Reader.literal? [']'] rest)))

/-- The address that a text is, as a whole. -/
def parse? (cs : List Char) : Option SocketAddress := parseV4? cs <|> parseV6? cs

end SocketAddress

end MemberRelay
