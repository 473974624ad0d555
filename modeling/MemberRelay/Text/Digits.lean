/-!
Digits and the numbers they spell.
-/

namespace MemberRelay.Digits

/-- The value of a digit in base sixteen, in either case. -/
def value? (c : Char) : Option Nat :=
  if '0' ≤ c ∧ c ≤ '9' then some (c.toNat - '0'.toNat)
  else if 'a' ≤ c ∧ c ≤ 'f' then some (c.toNat - 'a'.toNat + 10)
  else if 'A' ≤ c ∧ c ≤ 'F' then some (c.toNat - 'A'.toNat + 10)
  else none

def isDigit (base : Nat) (c : Char) : Bool :=
  match value? c with
  | some d => d < base
  | none => false

/-- The number `n` with one more digit in a base; another character counts as zero. -/
def push (base n : Nat) (c : Char) : Nat := n * base + (value? c).getD 0

/-- The number that digits spell in a base. -/
def number (base : Nat) (cs : List Char) : Nat := cs.foldl (push base) 0

/-- The number that digits spell in a base, if it is less than `bound`. The reading stops where it
is not. -/
def below? (base bound : Nat) (cs : List Char) : Option Nat :=
  cs.foldlM (fun n c => if push base n c < bound then some (push base n c) else none) 0

theorem le_push {base : Nat} (h : 1 ≤ base) (n : Nat) (c : Char) : n ≤ push base n c :=
  Nat.le_add_right_of_le (Nat.le_mul_of_pos_right n h)

theorem le_foldl_push {base : Nat} (h : 1 ≤ base) (cs : List Char) (n : Nat) :
    n ≤ cs.foldl (push base) n := by
  induction cs generalizing n with
  | nil => exact Nat.le_refl n
  | cons c cs ih => exact Nat.le_trans (le_push h n c) (ih _)

theorem foldlM_push_eq {base bound n : Nat} (hbase : 1 ≤ base) (hn : n < bound) (cs : List Char) :
    cs.foldlM (fun n c => if push base n c < bound then some (push base n c) else none) n =
      if cs.foldl (push base) n < bound then some (cs.foldl (push base) n) else none := by
  induction cs generalizing n with
  | nil => simp [hn]
  | cons c cs ih =>
    rw [List.foldlM_cons, List.foldl_cons]
    by_cases h : push base n c < bound
    · simpa [h] using ih h
    · have := le_foldl_push hbase cs (push base n c)
      rw [if_neg h, if_neg (by omega)]
      rfl

/-- Stopping early changes nothing, because more digits never make a number smaller. -/
theorem below?_eq {base bound : Nat} (hbase : 1 ≤ base) (hbound : 0 < bound) (cs : List Char) :
    below? base bound cs = if number base cs < bound then some (number base cs) else none :=
  foldlM_push_eq hbase hbound cs

/-- A run of digits at the start and what follows it. -/
def run (base : Nat) (cs : List Char) : List Char × List Char :=
  (cs.takeWhile (isDigit base), cs.dropWhile (isDigit base))

theorem run_append (base : Nat) (cs : List Char) : (run base cs).1 ++ (run base cs).2 = cs :=
  List.takeWhile_append_dropWhile

def decimal (n : Nat) : List Char := Nat.toDigits 10 n

def hexadecimal (n : Nat) : List Char := Nat.toDigits 16 n

/-- The digits of `n`, zeros in front up to `width` places. -/
def padded (width n : Nat) : List Char :=
  let ds := decimal n
  List.replicate (width - ds.length) '0' ++ ds

/-- Digits without the zeros at the end. -/
def trimmed (cs : List Char) : List Char := (cs.reverse.dropWhile (· = '0')).reverse

end MemberRelay.Digits
