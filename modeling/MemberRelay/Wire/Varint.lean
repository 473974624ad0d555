/-!
Numbers in groups of seven bits, the low groups first. Every byte but the last is 128 or more. Ten
bytes hold 64 bits, so the tenth byte is at most one.
-/

namespace MemberRelay.Varint

def encode (n : Nat) : List UInt8 :=
  if n < 128 then [n.toUInt8] else (n % 128 + 128).toUInt8 :: encode (n / 128)
termination_by n
decreasing_by omega

/-- A number of at most `room` bytes, of which the last may hold one bit. -/
def readFrom : Nat → List UInt8 → Option (Nat × List UInt8)
  | 0, _ => none
  | _, [] => none
  | 1, b :: bs => if b ≤ 1 then some (b.toNat, bs) else none
  | room + 1, b :: bs =>
    if b < 128 then some (b.toNat, bs)
    else (readFrom room bs).map fun (n, rest) => (b.toNat % 128 + 128 * n, rest)

/-- A number at the front of the bytes, and the bytes after it. -/
def read? (bs : List UInt8) : Option (Nat × List UInt8) := readFrom 10 bs

end MemberRelay.Varint
