import Mathlib.Tactic.Common
import MemberRelay.Text.Utf8

/-!
# Bytes of texts

The bytes of a text determine it, and what follows the bytes of one text in those of another is a text
again. A letter of the first 128 is one byte, which occurs in no other character.
-/

namespace MemberRelay.Proofs
open Utf8

lemma bytes_append (a b : String) : bytes (a ++ b) = bytes a ++ bytes b := by
  rw [bytes, String.toUTF8, String.toByteArray_append, ByteArray.data_append, Array.toList_append]
  rfl

lemma bytes_injective {a b : String} (h : bytes a = bytes b) : a = b := by
  have hb := text?_bytes b
  rw [← h, text?_bytes] at hb
  exact Option.some.inj hb

lemma bytes_ofList (cs : List Char) : bytes (String.ofList cs) = cs.utf8Encode.data.toList := by
  rw [bytes, String.toUTF8, String.toByteArray_ofList]

/-- What is left of a text after another is a text. -/
lemma eq_append_of_bytes {a r : String} {bs : List UInt8} (h : bytes r = bytes a ++ bs) :
    ∃ v, r = a ++ v ∧ bs = bytes v := by
  have hprefix : a.toList <+: r.toList := by
    apply List.isPrefix_of_utf8Encode_append_eq_utf8Encode ⟨bs.toArray⟩
    rw [← String.ofList_toList (s := r), ← String.ofList_toList (s := a)] at h
    rw [bytes_ofList, bytes_ofList] at h
    apply ByteArray.ext
    apply Array.toList_inj.1
    rw [ByteArray.data_append, Array.toList_append, h]
  obtain ⟨cs, hcs⟩ := hprefix
  have hr : r = a ++ String.ofList cs := by
    rw [← String.ofList_toList (s := r), ← hcs, String.ofList_append, String.ofList_toList]
  refine ⟨String.ofList cs, hr, ?_⟩
  rw [hr, bytes_append] at h
  exact (List.append_cancel_left h).symm

/-! ### One character -/

lemma toNat_ofNat_of_le {m : Nat} (h : 128 ≤ m) :
    (Char.ofNat m).toNat = 0 ∨ 128 ≤ (Char.ofNat m).toNat := by
  by_cases hvalid : m.isValidChar
  · have hm : Char.ofNat m = Char.ofNatAux m hvalid := dif_pos hvalid
    rw [hm]
    exact .inr h
  · have hm : Char.ofNat m = ⟨0, by decide⟩ := dif_neg hvalid
    rw [hm]
    exact .inl rfl

lemma toNat_ofNat_of_lt {m : Nat} (h : m < 128) : (Char.ofNat m).toNat = m := by
  have hvalid : m.isValidChar := .inl (by omega)
  have hm : Char.ofNat m = Char.ofNatAux m hvalid := dif_pos hvalid
  rw [hm]
  rfl

/-- More bytes make no character smaller. -/
lemma le_of_continued {n value : Nat} {bs rest : List UInt8} {c : Char}
    (h : continued n value bs = (some c, rest)) :
    ∃ m, c = Char.ofNat m ∧ value * Nat.pow 64 n ≤ m := by
  induction n generalizing value bs with
  | zero =>
    cases h
    exact ⟨value, rfl, Nat.le_of_eq (Nat.mul_one value)⟩
  | succ n ih =>
    cases bs with
    | nil => cases h
    | cons b bs =>
      rw [continued] at h
      split at h
      · obtain ⟨m, hc, hm⟩ := ih h
        refine ⟨m, hc, Nat.le_trans ?_ hm⟩
        have hpow : value * Nat.pow 64 (n + 1) = value * 64 * Nat.pow 64 n := by
          rw [Nat.mul_assoc, Nat.mul_comm 64]
          rfl
        rw [hpow]
        apply Nat.mul_le_mul_right
        omega
      · cases h

/-- What two bytes of a longer sequence spell is above the first 128 once the others follow. -/
lemma le_of_continuation? {lead b least greatest : UInt8} {n : Nat}
    (h : continuation? lead = some (n, least, greatest)) (hleast : least ≤ b)
    (hgreatest : b ≤ greatest) :
    128 ≤ (lead.toNat % Nat.pow 2 (6 - n) * 64 + b.toNat % 64) * Nat.pow 64 (n - 1) := by
  unfold continuation? at h
  rw [UInt8.le_iff_toNat_le] at hleast hgreatest
  split_ifs at h
  all_goals
    cases h
    simp only [UInt8.lt_iff_toNat_lt, ← UInt8.toNat_inj, UInt8.reduceToNat, Nat.pow_eq,
      Nat.reduceSub, Nat.reducePow] at *
    omega

/-- A character of the first 128 is read from its own byte. -/
lemma next_eq_some {b : UInt8} {bs rest : List UInt8} {c : Char} (h : next b bs = (some c, rest))
    (hpos : 0 < c.toNat) (hlt : c.toNat < 128) : b.toNat = c.toNat ∧ rest = bs := by
  unfold next at h
  split at h
  · next hb =>
    cases h
    have hb' : b.toNat < 128 := UInt8.lt_iff_toNat_lt.1 hb
    exact ⟨(toNat_ofNat_of_lt hb').symm, rfl⟩
  · exfalso
    split at h
    · cases h
    · cases h
    · next n least greatest b' bs' hcontinuation =>
      split at h
      · next hb =>
        obtain ⟨m, hc, hm⟩ := le_of_continued h
        have hle := le_of_continuation? hcontinuation hb.1 hb.2
        have hchar := toNat_ofNat_of_le (Nat.le_trans hle hm)
        rw [← hc] at hchar
        omega
      · cases h

end MemberRelay.Proofs
