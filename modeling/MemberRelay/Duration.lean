import MemberRelay.Text.Digits

/-!
Lengths of time, and their text in the largest unit in which they are at least one.
-/

namespace MemberRelay

/-- Whole seconds and a rest below one second. -/
structure Duration where
  secs : Nat
  nanos : Nat
  nanos_lt : nanos < 1000000000 := by omega

namespace Duration

def ofSecs (secs : Nat) : Duration := ⟨secs, 0, by omega⟩

/-- Seconds and nanoseconds, where these may make up further seconds. -/
def ofParts (secs nanos : Nat) : Duration :=
  ⟨secs + nanos / 1000000000, nanos % 1000000000, Nat.mod_lt _ (by omega)⟩

def ofMillis (millis : Nat) : Duration :=
  ofParts (millis / 1000) (millis % 1000 * 1000000)

/-- A whole part, and a fraction of `width` places without the zeros at its end. -/
def amount (whole fraction width : Nat) : List Char :=
  Digits.decimal whole ++
    if fraction = 0 then [] else '.' :: Digits.trimmed (Digits.padded width fraction)

/-- The exact text: `1.5s`, `200ms`, `1.001µs`, `0ns`. -/
def text (d : Duration) : String :=
  String.ofList <|
    if 0 < d.secs then amount d.secs d.nanos 9 ++ ['s']
    else if 1000000 ≤ d.nanos then amount (d.nanos / 1000000) (d.nanos % 1000000) 6 ++ ['m', 's']
    else if 1000 ≤ d.nanos then amount (d.nanos / 1000) (d.nanos % 1000) 3 ++ ['µ', 's']
    else amount d.nanos 0 0 ++ ['n', 's']

end Duration

end MemberRelay
