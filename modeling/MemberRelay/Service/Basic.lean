import MemberRelay.Event
import MemberRelay.Status

/-!
The two services: one hands every payload back, the other tells its version.
-/

namespace MemberRelay

/-- A message and the metadata that goes with it. -/
structure Envelope (α : Type) where
  message : α
  metadata : List (String × String) := []

/-- What a service answers, and what it reports on the way. -/
structure Reply where
  result : Except Status (Envelope String)
  events : List Event := []

/-- Hands payloads back as they are. -/
structure JsonService where
  deriving DecidableEq, Repr

/-- The reply to a payload: the payload. -/
def JsonService.send (_ : JsonService) (request : Envelope String) : Reply where
  result := .ok ⟨request.message, []⟩
  events := [.payloadReceived request.message.utf8ByteSize]

/-- Tells the version of the service, and keeps what it knows of members. -/
structure MemberService where
  members : List (String × String) := []
  deriving DecidableEq, Repr

namespace MemberService

def version : String := "1.0.0"

/-- The reply to a question for the version. -/
def getVersion (_ : MemberService) (_ : Envelope Unit) : Reply where
  result := .ok ⟨version, []⟩

end MemberService

end MemberRelay
