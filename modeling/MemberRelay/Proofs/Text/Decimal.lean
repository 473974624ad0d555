import Mathlib.Algebra.Group.Nat.Defs
import Mathlib.Data.List.DropRight
import Mathlib.Tactic.Common
import Mathlib.Tactic.Ring
import Mathlib.Tactic.SplitIfs
import MemberRelay.Text.Digits

/-!
# Digits of a number

The digits of a number in a base spell that number.
-/

namespace MemberRelay.Proofs

/-! ### Any base up to sixteen -/

section Bases

variable {base : Nat}

lemma value?_digitChar : ∀ d < 16, Digits.value? (Nat.digitChar d) = some d := by
  decide

lemma isDigit_of_mem_toDigits (hbase : 1 < base) (hle : base ≤ 16) (n : Nat) :
    ∀ c ∈ Nat.toDigits base n, Digits.isDigit base c = true := by
  have hdigit : ∀ d < base, Digits.isDigit base (Nat.digitChar d) = true := by
    intro d hd
    rw [Digits.isDigit, value?_digitChar d (by omega)]
    exact decide_eq_true hd
  induction n using Nat.strongRecOn with
  | ind n ih =>
    intro c hc
    rw [Nat.toDigits_eq_if hbase] at hc
    split at hc
    · next hlt =>
      rw [List.mem_singleton.1 hc]
      exact hdigit n hlt
    · next hge =>
      have hless : n / base < n := Nat.div_lt_self (by omega) hbase
      rcases List.mem_append.1 hc with hc | hc
      · exact ih _ hless c hc
      · rw [List.mem_singleton.1 hc]
        exact hdigit _ (Nat.mod_lt n (by omega))

theorem number_toDigits (hbase : 1 < base) (hle : base ≤ 16) (n : Nat) :
    Digits.number base (Nat.toDigits base n) = n := by
  have hpush : ∀ m, ∀ d < base, Digits.push base m (Nat.digitChar d) = m * base + d := by
    intro m d hd
    rw [Digits.push, value?_digitChar d (by omega), Option.getD_some]
  induction n using Nat.strongRecOn with
  | ind n ih =>
    rw [Nat.toDigits_eq_if hbase]
    split
    · next hlt =>
      rw [Digits.number, List.foldl_cons, List.foldl_nil, hpush 0 n hlt, Nat.zero_mul, Nat.zero_add]
    · next hge =>
      have hless : n / base < n := Nat.div_lt_self (by omega) hbase
      have hfront := ih _ hless
      rw [Digits.number] at hfront
      rw [Digits.number, List.foldl_append, hfront, List.foldl_cons, List.foldl_nil,
        hpush _ _ (Nat.mod_lt n (by omega))]
      exact Nat.div_add_mod' n base

lemma foldl_push (ds : List Char) (n : Nat) :
    ds.foldl (Digits.push base) n = n * base ^ ds.length + Digits.number base ds := by
  induction ds generalizing n with
  | nil => simp [Digits.number]
  | cons d ds ih =>
    have hzero : Digits.push base 0 d = (Digits.value? d).getD 0 := by
      rw [Digits.push, Nat.zero_mul, Nat.zero_add]
    rw [Digits.number, List.foldl_cons, List.foldl_cons, ih, ih (Digits.push base 0 d), hzero,
      Digits.push, List.length_cons]
    ring

lemma number_append (ds es : List Char) : Digits.number base (ds ++ es) =
    Digits.number base ds * base ^ es.length + Digits.number base es := by
  rw [Digits.number, List.foldl_append, foldl_push]
  rfl

lemma number_zeros (k : Nat) : Digits.number base (List.replicate k '0') = 0 := by
  induction k with
  | zero => rfl
  | succ k ih =>
    have hzero : Digits.push base 0 '0' = 0 := by simp [Digits.push, Digits.value?]
    rwa [Digits.number, List.replicate_succ, List.foldl_cons, hzero]

end Bases

/-! ### Decimal digits -/

lemma value?_of_isDigit {c : Char} (h : c.isDigit) :
    Digits.value? c = some (c.toNat - '0'.toNat) := by
  have hrange : '0' ≤ c ∧ c ≤ '9' := by
    simpa [Char.isDigit, Char.le_def] using h
  rw [Digits.value?, if_pos hrange]

lemma isDigit_ten_of_isDigit {c : Char} (h : c.isDigit) : Digits.isDigit 10 c = true := by
  have hlast : c ≤ '9' := by
    simp only [Char.isDigit, Bool.and_eq_true, decide_eq_true_eq] at h
    exact h.2
  have hnat : c.toNat ≤ 57 := Char.le_def.1 hlast
  rw [Digits.isDigit, value?_of_isDigit h]
  simp
  omega

lemma isDigit_of_value? {c : Char} {d : Nat} (h : Digits.value? c = some d) (hd : d < 10) :
    c.isDigit := by
  unfold Digits.value? at h
  split_ifs at h with hdecimal
  · simpa [Char.isDigit, Char.le_def] using hdecimal
  all_goals
    cases h
    omega

lemma isDigit_ten_iff {c : Char} : Digits.isDigit 10 c = true ↔ c.isDigit := by
  refine ⟨fun h => ?_, isDigit_ten_of_isDigit⟩
  unfold Digits.isDigit at h
  split at h
  · next d hvalue => exact isDigit_of_value? hvalue (of_decide_eq_true h)
  · cases h

lemma isDigit_of_mem_decimal {n : Nat} {c : Char} (h : c ∈ Digits.decimal n) : c.isDigit :=
  Nat.isDigit_of_mem_toDigits (by omega) (by omega) h

lemma ne_of_mem_decimal {n : Nat} {c d : Char} (h : c ∈ Digits.decimal n) (hd : d.isDigit = false) :
    c ≠ d := by
  rintro rfl
  have hdigit := isDigit_of_mem_decimal h
  rw [hd] at hdigit
  cases hdigit

lemma decimal_ne_nil (n : Nat) : Digits.decimal n ≠ [] := Nat.toDigits_ne_nil

lemma all_isDigit_decimal (n : Nat) : (Digits.decimal n).all (Digits.isDigit 10) = true := by
  rw [List.all_eq_true]
  intro c hc
  exact isDigit_ten_of_isDigit (isDigit_of_mem_decimal hc)

theorem number_decimal (n : Nat) : Digits.number 10 (Digits.decimal n) = n :=
  number_toDigits (by decide) (by decide) n

lemma below?_decimal {n bound : Nat} (h : n < bound) :
    Digits.below? 10 bound (Digits.decimal n) = some n := by
  rw [Digits.below?_eq (by omega) (by omega), number_decimal, if_pos h]

/-- Only zero starts with a zero. -/
lemma eq_zero_of_decimal {n : Nat} (h : (Digits.decimal n).head? = some '0') : n = 0 := by
  induction n using Nat.strongRecOn with
  | ind n ih =>
    rw [Digits.decimal, Nat.toDigits_eq_if (by omega)] at h
    split at h
    · next hlt =>
      have hdigit : ∀ m < 10, Nat.digitChar m = '0' → m = 0 := by decide
      exact hdigit n hlt (by simpa using h)
    · next hge =>
      obtain ⟨c, cs, hcs⟩ := List.exists_cons_of_ne_nil (decimal_ne_nil (n / 10))
      have hhead : (Digits.decimal (n / 10)).head? = some '0' := by
        rw [Digits.decimal] at hcs
        rw [hcs, List.cons_append] at h
        rwa [Digits.decimal, hcs]
      have hzero := ih (n / 10) (by omega) hhead
      omega

/-! ### Zeros in front and at the end -/

section Zeros

variable {width n : Nat} {c : Char}

lemma length_padded (hwidth : 0 < width) (h : n < 10 ^ width) :
    (Digits.padded width n).length = width := by
  have hle : (Digits.decimal n).length ≤ width :=
    (Nat.length_toDigits_le_iff (by decide) hwidth).2 h
  rw [Digits.padded, List.length_append, List.length_replicate]
  omega

lemma number_padded : Digits.number 10 (Digits.padded width n) = n := by
  rw [Digits.padded, number_append, number_zeros, Nat.zero_mul, Nat.zero_add, number_decimal]

lemma isDigit_of_mem_padded (hc : c ∈ Digits.padded width n) : Digits.isDigit 10 c = true := by
  rcases List.mem_append.1 hc with hc | hc
  · rw [List.eq_of_mem_replicate hc]
    rfl
  · exact isDigit_ten_of_isDigit (isDigit_of_mem_decimal hc)

/-- Only zeros are left out at the end. -/
lemma exists_trimmed_append (cs : List Char) :
    ∃ k, cs = Digits.trimmed cs ++ List.replicate k '0' := by
  refine ⟨(cs.rtakeWhile (· = '0')).length, ?_⟩
  have hzeros : cs.rtakeWhile (· = '0') = List.replicate (cs.rtakeWhile (· = '0')).length '0' := by
    refine List.eq_replicate_of_mem fun c hc => ?_
    simpa using List.mem_rtakeWhile_imp hc
  rw [← hzeros]
  exact List.rdropWhile_append_rtakeWhile.symm

lemma getLast?_trimmed (cs : List Char) : (Digits.trimmed cs).getLast? ≠ some '0' := by
  intro h
  have hstop := List.head?_dropWhile_not (fun c => decide (c = '0')) cs.reverse
  rw [Digits.trimmed, List.getLast?_reverse] at h
  rw [h] at hstop
  simp at hstop

end Zeros

lemma toList_toString_port (p : UInt16) : (toString p).toList = Digits.decimal p.toNat := by
  change (toString p.toNat).toList = _
  rw [Nat.toString_eq_repr, Nat.toList_repr]
  rfl

end MemberRelay.Proofs
