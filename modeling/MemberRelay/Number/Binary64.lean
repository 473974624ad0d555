import MemberRelay.Text.Digits

/-!
Binary64 numbers in exact arithmetic: the one nearest to a decimal, and the shortest decimal that
is nearest to it. A finite magnitude is `mantissa * 2 ^ exponent` with the mantissa below `2 ^ 53`
and the exponent at least -1074.
-/

namespace MemberRelay

inductive Binary64 where
  | finite (negative : Bool) (mantissa : Nat) (exponent : Int)
  | infinite (negative : Bool)
  | notANumber
  deriving Repr, DecidableEq

namespace Binary64

/-- The whole number nearest to `num / den`, at a half the even one. -/
def roundHalfEven (num den : Nat) : Nat :=
  let q := num / den
  let r := num % den
  if 2 * r < den then q
  else if den < 2 * r then q + 1
  else q + q % 2

/-- The fraction `n * base ^ e`, as numerator and denominator. -/
def scaled (n base : Nat) (e : Int) : Nat × Nat :=
  if 0 ≤ e then (n * Nat.pow base e.toNat, 1) else (n, Nat.pow base (-e).toNat)

/-- The least mantissa of 53 bits. -/
def leastFull : Nat := 4503599627370496

/-- The exponent that leaves the quotient 53 bits, or the least one there is. -/
def exponentOf (num den : Nat) : Int :=
  let e : Int := (num.log2 : Int) - den.log2 - 52
  let fits := scaled (den * leastFull) 2 e
  let e := if num * fits.2 < fits.1 then e - 1 else e
  max e (-1074)

/-- The number nearest to the positive fraction `num / den`. -/
def ofFraction (negative : Bool) (num den : Nat) : Binary64 :=
  let e := exponentOf num den
  let unit := scaled den 2 e
  let m := roundHalfEven (num * unit.2) unit.1
  let (m, e) := if m = 2 * leastFull then (leastFull, e + 1) else (m, e)
  if 971 < e then infinite negative else finite negative m e

/-- The number nearest to `digits * 10 ^ e`. Beyond four hundred places either way the answer is
infinite or zero without computing the power. -/
def ofDecimal (negative : Bool) (digits : Nat) (e : Int) : Binary64 :=
  let places : Int := (Digits.decimal digits).length + e
  if digits = 0 ∨ places < -400 then finite negative 0 (-1074)
  else if 400 < places then infinite negative
  else
    let (num, den) := scaled digits 10 e
    ofFraction negative num den

/-- Does the decimal `digits * 10 ^ p` round to `m * 2 ^ e`? The gap below a power of two is half
as wide, and the ends belong to an even mantissa. -/
def roundsTo (m : Nat) (e : Int) (digits : Nat) (p : Int) : Bool :=
  let (num, den) := scaled digits 10 p
  let (unit, part) := scaled 1 2 (e - 2)
  let value := num * part
  let step := den * unit
  let low := if m = leastFull ∧ -1074 < e then 4 * m - 1 else 4 * m - 2
  let high := 4 * m + 2
  if m % 2 = 0 then low * step ≤ value && value ≤ high * step
  else low * step < value && value < high * step

/-- The nearer to `num / den` of two neighbouring whole numbers, the even one at a half. -/
def nearer (num den low : Nat) : Nat :=
  let r := num - low * den
  if 2 * r < den then low else if den < 2 * r then low + 1 else low + low % 2

/-- The decimal with the fewest digits, at most `17`, that rounds to `m * 2 ^ e`: on each coarser
grid first, one of the two neighbours of the value. -/
def shortestFrom (m : Nat) (e : Int) (places : Int) : Nat → Nat → Nat × Int
  | _, 0 => (m, e)
  | n, fuel + 1 =>
    let p := places - n
    let (num, den) := scaled m 2 e
    let (unit, part) := scaled 1 10 p
    let low := num * part / (den * unit)
    let inLow := roundsTo m e low p
    let inHigh := roundsTo m e (low + 1) p
    if inLow && inHigh then (nearer (num * part) (den * unit) low, p)
    else if inLow then (low, p)
    else if inHigh then (low + 1, p)
    else shortestFrom m e places (n + 1) fuel

/-- How many digits stand before the point of `m * 2 ^ e`, negative when zeros follow the point. -/
def placesOf (m : Nat) (e : Int) : Int :=
  let (num, den) := scaled m 2 e
  if den ≤ num then (Digits.decimal (num / den)).length
  else 1 - (Digits.decimal ((den - 1) / num)).length

/-- The shortest decimal for a positive magnitude, as digits and a power of ten. -/
def shortest (m : Nat) (e : Int) : Nat × Int :=
  shortestFrom m e (placesOf m e) 1 18

/-- Digits in positional notation, never with an exponent; a whole number ends in `.0`. -/
def positional (digits : Nat) (p : Int) : List Char :=
  if 0 ≤ p then Digits.decimal digits ++ List.replicate p.toNat '0' ++ ['.', '0']
  else
    let places := (-p).toNat
    let ds := Digits.padded (places + 1) digits
    let fraction := Digits.trimmed (ds.drop (ds.length - places))
    ds.take (ds.length - places) ++ '.' :: (if fraction.isEmpty then ['0'] else fraction)

def text : Binary64 → String
  | notANumber => "NaN"
  | infinite negative => if negative then "-inf" else "inf"
  | finite negative m e =>
    let sign := if negative then ['-'] else []
    let magnitude :=
      if m = 0 then ['0', '.', '0']
      else
        let (digits, p) := shortest m e
        positional digits p
    String.ofList (sign ++ magnitude)

end Binary64

end MemberRelay
