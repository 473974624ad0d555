import MemberRelay.Number.Binary64
import MemberRelay.Text.Digits
import MemberRelay.Text.Reader

/-!
Integers in four bases and floating point numbers. Integers fit 64 bits with a sign; single
underscores may stand between digits.
-/

namespace MemberRelay.Toml

/-- A number as a document writes it. -/
inductive Number where
  | integer (n : Int)
  | float (x : Binary64)

/-- More digits of a number, without their underscores; `done` holds those before, the last one
first. An underscore with no digit after it stays. -/
def digitsFrom (base : Nat) (done : List Char) : List Char → List Char × List Char
  | '_' :: c :: cs =>
    if Digits.isDigit base c then digitsFrom base (c :: done) cs else (done.reverse, '_' :: c :: cs)
  | c :: cs =>
    if Digits.isDigit base c then digitsFrom base (c :: done) cs else (done.reverse, c :: cs)
  | [] => (done.reverse, [])

def digits? (base : Nat) : Reader (List Char)
  | c :: cs => if Digits.isDigit base c then some (digitsFrom base [c] cs) else none
  | [] => none

/-- Decimal digits of which the first is not zero, or a single zero. -/
def wholeDigits? : Reader (List Char)
  | '0' :: cs => some (['0'], cs)
  | cs => digits? 10 cs

/-- A sign, if there is one: is it a minus? -/
def sign : List Char → Bool × List Char
  | '-' :: cs => (true, cs)
  | '+' :: cs => (false, cs)
  | cs => (false, cs)

/-- The exponent of a power of ten after `e` or `E`; zero if there is none. -/
def exponent? : Reader Int
  | c :: cs =>
    if c = 'e' || c = 'E' then
      let (negative, cs) := sign cs
      (digits? 10 cs).map fun (ds, rest) =>
        (if negative then -(Digits.number 10 ds : Int) else Digits.number 10 ds, rest)
    else some (0, c :: cs)
  | [] => some (0, [])

/-- The digits after a point; none if there is no point. -/
def fraction? : Reader (List Char)
  | '.' :: cs => digits? 10 cs
  | cs => some ([], cs)

/-- The integer that digits spell after a sign, if 64 bits hold it. -/
def integer? (negative : Bool) (base : Nat) (ds rest : List Char) : Option (Number × List Char) :=
  if negative then (Digits.below? base (UInt64.size / 2 + 1) ds).map fun n => (.integer (-n), rest)
  else (Digits.below? base (UInt64.size / 2) ds).map fun n => (.integer n, rest)

/-- An integer after its base was named. -/
def prefixed? (base : Nat) (cs : List Char) : Option (Number × List Char) := do
  let (ds, rest) ← digits? base cs
  integer? false base ds rest

/-- Does a floating point number go on here, with a point or an exponent? -/
def goesOn : List Char → Bool
  | c :: _ => c = '.' || c = 'e' || c = 'E'
  | [] => false

/-- A floating point number after its whole digits, which must not exceed the greatest one. -/
def float? (negative : Bool) (whole cs : List Char) : Option (Number × List Char) := do
  let (fraction, cs) ← fraction? cs
  let (exponent, rest) ← exponent? cs
  match Binary64.ofDecimal negative (Digits.number 10 (whole ++ fraction))
      (exponent - fraction.length) with
  | .infinite false => none
  | x => some (.float x, rest)

/-- A decimal number after its sign. -/
def unsigned? (negative : Bool) (cs : List Char) : Option (Number × List Char) := do
  let (whole, rest) ← wholeDigits? cs
  if goesOn rest then float? negative whole rest
  else integer? negative 10 whole rest

def number? : Reader Number
  | '0' :: 'x' :: cs => prefixed? 16 cs
  | '0' :: 'o' :: cs => prefixed? 8 cs
  | '0' :: 'b' :: cs => prefixed? 2 cs
  | cs =>
    let (negative, rest) := sign cs
    match rest with
    | 'i' :: 'n' :: 'f' :: stop => some (.float (.infinite negative), stop)
    | 'n' :: 'a' :: 'n' :: stop => some (.float .notANumber, stop)
    | _ => unsigned? negative rest

end MemberRelay.Toml
