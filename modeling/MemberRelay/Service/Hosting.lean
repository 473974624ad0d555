import MemberRelay.Service.Basic
import MemberRelay.Wire.Message

/-!
Services behind one server. A call names its method by a path and carries an encoded message.
-/

namespace MemberRelay

inductive Method where
  | send
  | getVersion
  deriving DecidableEq, Repr

namespace Method

def path : Method → String
  | send => "/member.v1.JsonService/Send"
  | getVersion => "/member.v1.MemberService/GetVersion"

def request : Method → Wire.Message
  | send => .jsonRequest
  | getVersion => .versionRequest

def response : Method → Wire.Message
  | send => .jsonResponse
  | getVersion => .versionResponse

/-- The method of a path; what follows a question mark does not count. -/
def ofPath? (path : String) : Option Method :=
  let path := String.ofList (path.toList.takeWhile (· ≠ '?'))
  [send, getVersion].find? (·.path = path)

end Method

def maxMessage : Nat := 4194304

/-- How a message of too many bytes is refused. -/
def tooLarge (size : Nat) : Status where
  code := .outOfRange
  message := s!"Error, decoded message length too large: found {size} bytes, " ++
    s!"the limit is: {maxMessage} bytes"

def receive (m : Wire.Message) (bs : List UInt8) : Except Status String :=
  if maxMessage < bs.length then .error (tooLarge bs.length)
  else (m.decode bs).mapError fun e => ⟨.internal, e.message⟩

/-- What a server does with the calls of each method that it knows. -/
structure Hosting where
  send? : Option (Envelope String → Reply)
  getVersion? : Option (Envelope Unit → Reply)

namespace Hosting

def both (json : JsonService) (member : MemberService) : Hosting where
  send? := some json.send
  getVersion? := some member.getVersion

/-- What becomes of a method's decoded message, if the method is known. -/
def handler? (h : Hosting) : Method → Option (String → Reply)
  | .send => h.send?.map fun f text => f ⟨text, []⟩
  | .getVersion => h.getVersion?.map fun f _ => f ⟨(), []⟩

/-- The encoded answer to a call, and the reports. -/
def answer (h : Hosting) (path : String) (body : List UInt8) :
    Except Status (List UInt8) × List Event :=
  match (Method.ofPath? path).bind fun m => (h.handler? m).map (m, ·) with
  | none => (.error ⟨.unimplemented, ""⟩, [])
  | some (m, handle) =>
    match receive m.request body with
    | .error status => (.error status, [])
    | .ok text =>
      let reply := handle text
      (reply.result.map fun e => m.response.encode e.message, reply.events)

end Hosting

end MemberRelay
