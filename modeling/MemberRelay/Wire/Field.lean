import MemberRelay.Wire.Varint

/-!
Fields of an encoded message: a key, which holds a number and the shape of what follows, and the
content in that shape. A group holds fields up to the end key of its number.
-/

namespace MemberRelay.Wire

inductive Shape where
  | varint
  | sixtyFourBit
  | lengthDelimited
  | startGroup
  | endGroup
  | thirtyTwoBit
  deriving DecidableEq, Repr

/-- The shape of a number; 6 and 7 have none. -/
def Shape.ofNat? : Nat → Option Shape
  | 0 => some varint
  | 1 => some sixtyFourBit
  | 2 => some lengthDelimited
  | 3 => some startGroup
  | 4 => some endGroup
  | 5 => some thirtyTwoBit
  | _ => none

def Shape.name : Shape → String
  | varint => "Varint"
  | sixtyFourBit => "SixtyFourBit"
  | lengthDelimited => "LengthDelimited"
  | startGroup => "StartGroup"
  | endGroup => "EndGroup"
  | thirtyTwoBit => "ThirtyTwoBit"

/-- What can be wrong with a field. -/
inductive Fault where
  | varint
  | key (value : Nat)
  | shapeNumber (value : Nat)
  | zeroNumber
  | shape (found : Shape)
  | underflow
  | notUtf8
  | endGroup
  | tooDeep
  deriving DecidableEq, Repr

def Fault.message : Fault → String
  | varint => "invalid varint"
  | key value => s!"invalid key value: {value}"
  | shapeNumber value => s!"invalid wire type value: {value}"
  | zeroNumber => "invalid tag value: 0"
  | shape found => s!"invalid wire type: {found.name} (expected {Shape.lengthDelimited.name})"
  | underflow => "buffer underflow"
  | notUtf8 => "invalid string value: data is not UTF-8 encoded"
  | endGroup => "unexpected end group tag"
  | tooDeep => "recursion limit reached"

structure Key where
  number : Nat
  shape : Shape
  deriving DecidableEq, Repr

/-- A number, as `Varint.read?` takes it. -/
def readNat (bs : List UInt8) : Except Fault (Nat × List UInt8) :=
  match Varint.read? bs with
  | some r => .ok r
  | none => .error .varint

def Key.ofNat (n : Nat) : Except Fault Key :=
  if UInt32.size ≤ n then .error (.key n)
  else match Shape.ofNat? (n % 8) with
    | none => .error (.shapeNumber (n % 8))
    | some shape => if n / 8 = 0 then .error .zeroNumber else .ok ⟨n / 8, shape⟩

def readKey (bs : List UInt8) : Except Fault (Key × List UInt8) := do
  let (n, rest) ← readNat bs
  return (← Key.ofNat n, rest)

def takeBytes (n : Nat) (bs : List UInt8) : Except Fault (List UInt8 × List UInt8) :=
  if bs.length < n then .error .underflow else .ok (bs.splitAt n)

/-- As many bytes as the number in front of them says. -/
def takeDelimited (bs : List UInt8) : Except Fault (List UInt8 × List UInt8) := do
  let (n, rest) ← readNat bs
  takeBytes n rest

/-- The rest after the fields of a group and its end key. `skip` skips the content of a field;
`fuel` exceeds the number of fields. -/
def skipGroup (skip : Key → List UInt8 → Except Fault (List UInt8)) (number : Nat) :
    Nat → List UInt8 → Except Fault (List UInt8)
  | 0, _ => .error .underflow
  | fuel + 1, bs => do
    let (key, rest) ← readKey bs
    if key.shape = .endGroup then
      if key.number = number then .ok rest else .error .endGroup
    else skipGroup skip number fuel (← skip key rest)

/-- The rest after the content of a field; groups may be nested `depth` deep. -/
def skipContent : Nat → Key → List UInt8 → Except Fault (List UInt8)
  | 0, _, _ => .error .tooDeep
  | depth + 1, key, bs =>
    match key.shape with
    | .varint => (readNat bs).map (·.2)
    | .sixtyFourBit => (takeBytes 8 bs).map (·.2)
    | .thirtyTwoBit => (takeBytes 4 bs).map (·.2)
    | .lengthDelimited => (takeDelimited bs).map (·.2)
    | .startGroup => skipGroup (skipContent depth) key.number (bs.length + 1) bs
    | .endGroup => .error .endGroup

/-- How deep skipped fields may be nested. -/
def maxDepth : Nat := 100

end MemberRelay.Wire
