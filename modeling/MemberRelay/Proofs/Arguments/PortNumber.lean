import Mathlib.Tactic.Common
import Mathlib.Tactic.SplitIfs
import MemberRelay.Arguments.Port
import MemberRelay.Proofs.Actions
import MemberRelay.Proofs.Text.Decimal

/-!
# Port numbers on the command line

The digits of a port are added up below a bound, and the sum is narrowed to sixteen bits. The result is
the number that the digits spell, or the reason why that is no port; nothing wraps around on the way.
-/

namespace MemberRelay.Proofs
open Arguments

/-- A text is one decimal digit or more after an optional sign, and `n` is the number it spells. -/
inductive SpellsInteger : List Char → Int → Prop where
  | plain {ds : List Char} (hne : ds ≠ []) (hds : ∀ c ∈ ds, c.isDigit) :
      SpellsInteger ds (Nat.ofDigitChars 10 ds 0)
  | plus {ds : List Char} (hne : ds ≠ []) (hds : ∀ c ∈ ds, c.isDigit) :
      SpellsInteger ('+' :: ds) (Nat.ofDigitChars 10 ds 0)
  | minus {ds : List Char} (hne : ds ≠ []) (hds : ∀ c ∈ ds, c.isDigit) :
      SpellsInteger ('-' :: ds) (-Nat.ofDigitChars 10 ds 0)

/-- Why a number is no port: it is outside the range of ports, or even of 64 bits. -/
def outsideReason (n : Int) : String :=
  if 9223372036854775807 < n then "number too large to fit in target type"
  else if n < -9223372036854775808 then "number too small to fit in target type"
  else s!"{n} is not in 0..=65535"

/-! ### Digits below a bound -/

section Digits

variable {greatest n k : Nat} {excess : PortError} {cs ds : List Char} {c : Char}

lemma le_ofDigitChars (ds : List Char) (n : Nat) : n ≤ Nat.ofDigitChars 10 ds n := by
  rw [Nat.ofDigitChars_eq_ofDigitChars_zero]
  have hpow : 1 ≤ 10 ^ ds.length := Nat.one_le_pow _ _ (by decide)
  exact Nat.le_add_right_of_le (Nat.le_mul_of_pos_left n hpow)

/-- Stopping at the bound changes nothing, because more digits never make a number smaller. -/
lemma magnitude_of_digits (hds : ∀ c ∈ ds, c.isDigit) (hn : n ≤ greatest) :
    magnitude greatest excess n ds =
      if Nat.ofDigitChars 10 ds n ≤ greatest then .ok (Nat.ofDigitChars 10 ds n)
      else .error excess := by
  induction ds generalizing n with
  | nil =>
    rw [Nat.ofDigitChars_nil, if_pos hn]
    rfl
  | cons c cs ih =>
    rw [List.forall_mem_cons] at hds
    have hdigit : c.toNat - '0'.toNat < 10 := by
      have hlast : c.toNat ≤ 57 := by
        have hrange := hds.1
        simp only [Char.isDigit, Bool.and_eq_true, decide_eq_true_eq] at hrange
        exact hrange.2
      have hzero : '0'.toNat = 48 := rfl
      omega
    rw [magnitude, value?_of_isDigit hds.1, Nat.ofDigitChars_cons, Nat.mul_comm 10 n]
    dsimp only
    rw [if_neg (Nat.not_le.2 hdigit)]
    by_cases hgreatest : greatest < n * 10 + (c.toNat - '0'.toNat)
    · have hle := le_ofDigitChars cs (n * 10 + (c.toNat - '0'.toNat))
      rw [if_pos hgreatest, if_neg (by omega)]
    · rw [if_neg hgreatest, ih hds.2 (Nat.le_of_not_lt hgreatest)]

lemma isDigit_of_magnitude (h : magnitude greatest excess n cs = .ok k) : ∀ c ∈ cs, c.isDigit := by
  induction cs generalizing n with
  | nil => exact nofun
  | cons c cs ih =>
    rw [magnitude] at h
    split at h
    · cases h
    · next d hvalue =>
      split_ifs at h with hten hgreatest
      exact List.forall_mem_cons.2 ⟨isDigit_of_value? hvalue (Nat.lt_of_not_le hten), ih h⟩

lemma magnitude1_of_digits (hne : ds ≠ []) (hds : ∀ c ∈ ds, c.isDigit) :
    magnitude1 greatest excess ds =
      if Nat.ofDigitChars 10 ds 0 ≤ greatest then .ok (Nat.ofDigitChars 10 ds 0)
      else .error excess := by
  rw [magnitude1, magnitude_of_digits hds (Nat.zero_le greatest)]
  exact hne

lemma magnitude1_eq_ok_iff : magnitude1 greatest excess cs = .ok k ↔
    cs ≠ [] ∧ (∀ c ∈ cs, c.isDigit) ∧ k ≤ greatest ∧ k = Nat.ofDigitChars 10 cs 0 := by
  constructor
  · intro h
    have hne : cs ≠ [] := by
      rintro rfl
      cases h
    have hdigits : ∀ c ∈ cs, c.isDigit := by
      rw [magnitude1] at h
      · exact isDigit_of_magnitude h
      · exact hne
    rw [magnitude1_of_digits hne hdigits] at h
    split at h
    · next hle =>
      cases h
      exact ⟨hne, hdigits, hle, rfl⟩
    · cases h
  · rintro ⟨hne, hdigits, hle, rfl⟩
    rw [magnitude1_of_digits hne hdigits, if_pos hle]

end Digits

/-! ### Signs and ranges -/

section Integers

variable {cs ds : List Char} {n : Int} {v : String} {m : UInt16}

lemma map_cast (f : Int → Int) (x : Except PortError Nat) :
    Except.map f (do let k ← x; pure (k : Int)) = x.map fun k : Nat => f k := by
  cases x <;> rfl

/-- A text without a sign is digits only. -/
lemma integer_of_unsigned (hne : cs ≠ []) (hplus : ∀ ds, cs ≠ '+' :: ds)
    (hminus : ∀ ds, cs ≠ '-' :: ds) :
    integer cs = (magnitude1 9223372036854775807 .tooLarge cs).map fun k : Nat => (k : Int) := by
  rw [integer, map_cast]
  · rfl
  · exact hne
  · exact hplus
  · exact hminus

lemma integer_plus : integer ('+' :: ds) =
    (magnitude1 9223372036854775807 .tooLarge ds).map fun k : Nat => (k : Int) := by
  rw [integer, map_cast]
  rfl

lemma integer_minus : integer ('-' :: ds) =
    (magnitude1 9223372036854775808 .tooSmall ds).map fun k : Nat => -(k : Int) := by
  rw [integer, map_cast]
  rfl

lemma ne_cons_of_digits {c : Char} (hds : ∀ c ∈ ds, c.isDigit) (hc : c.isDigit = false)
    (cs : List Char) : ds ≠ c :: cs := by
  rintro rfl
  rw [List.forall_mem_cons, hc] at hds
  cases hds.1

/-- A number with a sign is read as it is, unless it leaves the 64 bits on its own side. -/
lemma integer_of_spells (h : SpellsInteger cs n) : integer cs =
    if 9223372036854775807 < n then .error .tooLarge
    else if n < -9223372036854775808 then .error .tooSmall else .ok n := by
  have hpositive : ∀ {ds : List Char}, ds ≠ [] → (∀ c ∈ ds, c.isDigit) →
      (magnitude1 9223372036854775807 .tooLarge ds).map (fun k : Nat => (k : Int)) =
        if 9223372036854775807 < (Nat.ofDigitChars 10 ds 0 : Int) then .error .tooLarge
        else if (Nat.ofDigitChars 10 ds 0 : Int) < -9223372036854775808 then .error .tooSmall
        else .ok (Nat.ofDigitChars 10 ds 0 : Int) := by
    intro ds hne hds
    rw [magnitude1_of_digits hne hds]
    by_cases hle : Nat.ofDigitChars 10 ds 0 ≤ 9223372036854775807
    · rw [if_pos hle, if_neg (by omega), if_neg (by omega)]
      rfl
    · rw [if_neg hle, if_pos (by omega)]
      rfl
  cases h with
  | plain hne hds =>
    rw [integer_of_unsigned hne (ne_cons_of_digits hds rfl) (ne_cons_of_digits hds rfl)]
    exact hpositive hne hds
  | plus hne hds =>
    rw [integer_plus]
    exact hpositive hne hds
  | @minus ds hne hds =>
    rw [integer_minus, magnitude1_of_digits hne hds]
    by_cases hle : Nat.ofDigitChars 10 ds 0 ≤ 9223372036854775808
    · rw [if_pos hle, if_neg (by omega), if_neg (by omega)]
      rfl
    · rw [if_neg hle, if_neg (by omega), if_pos (by omega)]
      rfl

/-- Nothing else is read as a number. -/
lemma spells_of_integer (h : integer cs = .ok n) : SpellsInteger cs n := by
  unfold integer at h
  split at h
  · cases h
  all_goals
    rw [map_cast] at h
    obtain ⟨k, hk, rfl⟩ := map_eq_ok_iff.1 h
    obtain ⟨hne, hds, -, rfl⟩ := magnitude1_eq_ok_iff.1 hk
  · exact .plus hne hds
  · exact .minus hne hds
  · exact .plain hne hds

/-- A text is read as a port exactly if it spells that port. -/
theorem port_eq_ok_iff : port v = .ok m ↔ SpellsInteger v.toList m.toNat := by
  have hbound := m.toNat_lt
  constructor
  · intro h
    obtain ⟨n, hn, h⟩ := bind_eq_ok_iff.1 h
    have hspells := spells_of_integer hn
    split at h
    · next hrange =>
      obtain ⟨hlow, hhigh⟩ := hrange
      have hsize : ((UInt16.size : Nat) : Int) = 65536 := rfl
      cases h
      have hnat : n.toNat.toUInt16.toNat = n.toNat := UInt16.toNat_ofNat_of_lt' (by omega)
      have hsame : (n.toNat.toUInt16.toNat : Int) = n := by omega
      rwa [hsame]
    · cases h
  · intro h
    have hread := integer_of_spells h
    rw [if_neg (by omega), if_neg (by omega)] at hread
    have hrange : 0 ≤ (m.toNat : Int) ∧ (m.toNat : Int) < (UInt16.size : Nat) := by
      have hsize : UInt16.size = 65536 := rfl
      omega
    refine bind_eq_ok_iff.2 ⟨_, hread, ?_⟩
    rw [if_pos hrange]
    simp [pure, Except.pure]

/-- A number outside the ports is refused with the reason for it. -/
lemma port_of_outside (h : SpellsInteger v.toList n) (hout : n < 0 ∨ 65535 < n) :
    ∃ e, port v = .error e ∧ e.message = outsideReason n := by
  have hread := integer_of_spells h
  unfold outsideReason
  by_cases hlarge : 9223372036854775807 < n
  · rw [if_pos hlarge] at hread ⊢
    exact ⟨.tooLarge, bind_eq_error_iff.2 (.inl hread), rfl⟩
  · rw [if_neg hlarge] at hread ⊢
    by_cases hsmall : n < -9223372036854775808
    · rw [if_pos hsmall] at hread ⊢
      exact ⟨.tooSmall, bind_eq_error_iff.2 (.inl hread), rfl⟩
    · rw [if_neg hsmall] at hread ⊢
      have hrange : ¬(0 ≤ n ∧ n < (UInt16.size : Nat)) := by
        have hsize : ((UInt16.size : Nat) : Int) = 65536 := rfl
        omega
      refine ⟨.outOfRange n, bind_eq_error_iff.2 (.inr ⟨n, hread, ?_⟩), rfl⟩
      rw [if_neg hrange]
      rfl

end Integers

end MemberRelay.Proofs
