import MemberRelay.Text.Utf8
import MemberRelay.Wire.Field

/-!
The messages of the two services. Each holds one text under field number 1, or none; the last value
of the field counts, and every other field is passed over.
-/

namespace MemberRelay.Wire

inductive Message where
  | jsonRequest
  | jsonResponse
  | versionRequest
  | versionResponse
  deriving DecidableEq, Repr

/-- The full name of the text of a message, if it holds one. -/
def Message.field? : Message → Option String
  | jsonRequest => some "JsonRequest.json"
  | jsonResponse => some "JsonResponse.json"
  | versionRequest => none
  | versionResponse => some "GetVersionResponse.version"

/-- A fault, and the field it was found in if that is the text. -/
structure DecodeError where
  field? : Option String
  fault : Fault
  deriving DecidableEq, Repr

def DecodeError.message (e : DecodeError) : String :=
  match e.field? with
  | some field => s!"failed to decode Protobuf message: {field}: {e.fault.message}"
  | none => s!"failed to decode Protobuf message: {e.fault.message}"

/-- The text of a field and the rest. -/
def readText (shape : Shape) (bs : List UInt8) : Except Fault (String × List UInt8) := do
  if shape ≠ .lengthDelimited then throw (.shape shape)
  let (content, rest) ← takeDelimited bs
  match Utf8.text? content with
  | some s => return (s, rest)
  | none => throw .notUtf8

namespace Message

/-- One field: the text if it is that, and the rest. -/
def readField (m : Message) (bs : List UInt8) :
    Except DecodeError (Option String × List UInt8) := do
  let (key, rest) ← (readKey bs).mapError (⟨none, ·⟩)
  if m.field?.isSome ∧ key.number = 1 then
    let (s, rest) ← (readText key.shape rest).mapError (⟨m.field?, ·⟩)
    return (some s, rest)
  else
    return (none, ← (skipContent maxDepth key rest).mapError (⟨none, ·⟩))

/-- The text after the fields of `bs`, where it was `s` before; `fuel` exceeds their number. -/
def decodeFrom (m : Message) (s : String) : Nat → List UInt8 → Except DecodeError String
  | _, [] => .ok s
  | 0, _ => .error ⟨none, .underflow⟩
  | fuel + 1, bs => do
    let (text?, rest) ← m.readField bs
    decodeFrom m (text?.getD s) fuel rest

def decode (m : Message) (bs : List UInt8) : Except DecodeError String :=
  m.decodeFrom "" bs.length bs

/-- The bytes of a message with the text `s`; an empty text is left out. -/
def encode (m : Message) (s : String) : List UInt8 :=
  if m.field? = none ∨ s = "" then []
  else 0x0A :: Varint.encode s.utf8ByteSize ++ Utf8.bytes s

end Message

end MemberRelay.Wire
