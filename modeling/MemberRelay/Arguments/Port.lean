import MemberRelay.Text.Digits

/-!
Port numbers on the command line.
-/

namespace MemberRelay.Arguments

/-- Why a text is no port. -/
inductive PortError where
  | empty
  | notDigits
  | tooLarge
  | tooSmall
  | outOfRange (n : Int)
  deriving DecidableEq, Repr

def PortError.message : PortError → String
  | empty => "cannot parse integer from empty string"
  | notDigits => "invalid digit found in string"
  | tooLarge => "number too large to fit in target type"
  | tooSmall => "number too small to fit in target type"
  | outOfRange n => s!"{n} is not in 0..=65535"

/-- More digits after the number `n`, up to the first that is no digit or leads above `greatest`. -/
def magnitude (greatest : Nat) (excess : PortError) (n : Nat) : List Char → Except PortError Nat
  | [] => .ok n
  | c :: cs =>
    match Digits.value? c with
    | none => .error .notDigits
    | some d =>
      if 10 ≤ d then .error .notDigits
      else if greatest < n * 10 + d then .error excess
      else magnitude greatest excess (n * 10 + d) cs

def magnitude1 (greatest : Nat) (excess : PortError) : List Char → Except PortError Nat
  | [] => .error .notDigits
  | cs => magnitude greatest excess 0 cs

/-- A number of 64 bits with an optional sign. -/
def integer : List Char → Except PortError Int
  | [] => .error .empty
  | '+' :: cs => (magnitude1 (UInt64.size / 2 - 1) .tooLarge cs).map fun n => n
  | '-' :: cs => (magnitude1 (UInt64.size / 2) .tooSmall cs).map fun n => -n
  | cs => (magnitude1 (UInt64.size / 2 - 1) .tooLarge cs).map fun n => n

def port (s : String) : Except PortError UInt16 := do
  let n ← integer s.toList
  if 0 ≤ n ∧ n < UInt16.size then return n.toNat.toUInt16 else throw (.outOfRange n)

end MemberRelay.Arguments
