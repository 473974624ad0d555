/-!
Readers take a value from the front of a text and hand back the rest, or refuse.
-/

namespace MemberRelay

/-- Takes an `α` off the front of a text. -/
abbrev Reader (α : Type) := List Char → Option (α × List Char)

namespace Reader

/-- The rest after a fixed beginning. -/
def literal? : List Char → List Char → Option (List Char)
  | [], cs => some cs
  | _ :: _, [] => none
  | l :: ls, c :: cs => if l = c then literal? ls cs else none

theorem literal?_eq_some_iff {ls cs rest : List Char} :
    literal? ls cs = some rest ↔ cs = ls ++ rest := by
  induction ls generalizing cs with
  | nil => simp [literal?]
  | cons l ls ih =>
    cases cs with
    | nil => simp [literal?]
    | cons c cs =>
      by_cases h : l = c
      · simp [literal?, h, ih]
      · simp [literal?, h, Ne.symm h]

end Reader

end MemberRelay
