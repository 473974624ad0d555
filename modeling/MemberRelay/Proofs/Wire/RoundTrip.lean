import Mathlib.Tactic.Common
import MemberRelay.Wire.Message

/-!
# Reading what was written

A number in groups of seven bits, a text with its length, and a whole message are read back as they
were written, whatever bytes follow. The width of a length decides the size of a message.
-/

namespace MemberRelay.Proofs
open Wire

/-! ### Numbers -/

lemma varint_encode_of_lt {n : Nat} (h : n < 128) : Varint.encode n = [n.toUInt8] := by
  rw [Varint.encode, if_pos h]

lemma varint_encode_of_ge {n : Nat} (h : 128 ≤ n) :
    Varint.encode n = (n % 128 + 128).toUInt8 :: Varint.encode (n / 128) := by
  rw [Varint.encode, if_neg (by omega)]

lemma varint_encode_length_pos (n : Nat) : 0 < (Varint.encode n).length := by
  by_cases h : n < 128
  · simp [varint_encode_of_lt h]
  · simp [varint_encode_of_ge (Nat.le_of_not_lt h)]

/-- Each byte of a number holds one digit to the base 128. -/
lemma varint_encode_length_le_iff (k n : Nat) :
    (Varint.encode n).length ≤ k + 1 ↔ n < Nat.pow 128 (k + 1) := by
  induction k generalizing n with
  | zero =>
    by_cases h : n < 128
    · simp [varint_encode_of_lt h, h]
    · have hpos := varint_encode_length_pos (n / 128)
      have hpow : Nat.pow 128 (0 + 1) = 128 := rfl
      rw [varint_encode_of_ge (Nat.le_of_not_lt h), List.length_cons, hpow]
      omega
  | succ k ih =>
    have hpow : Nat.pow 128 (k + 1 + 1) = Nat.pow 128 (k + 1) * 128 := rfl
    by_cases h : n < 128
    · have hone : 0 < Nat.pow 128 (k + 1) := Nat.pow_pos (by omega)
      rw [varint_encode_of_lt h, hpow, List.length_singleton]
      exact iff_of_true (by omega) (by omega)
    · have hlen : (Varint.encode n).length = (Varint.encode (n / 128)).length + 1 := by
        rw [varint_encode_of_ge (Nat.le_of_not_lt h), List.length_cons]
      rw [hlen, hpow, Nat.add_le_add_iff_right, ih]
      exact Nat.div_lt_iff_lt_mul (by omega)

/-- The last byte that fits holds one bit, so `room + 1` bytes hold every number below
`2 * 128 ^ room`. -/
lemma varint_readFrom_encode (room n : Nat) (h : n < 2 * Nat.pow 128 room) (rest : List UInt8) :
    Varint.readFrom (room + 1) (Varint.encode n ++ rest) = some (n, rest) := by
  induction room generalizing n with
  | zero =>
    have hn : n < 2 := h
    have hbyte : n.toUInt8.toNat = n := by simp; omega
    have hle : n.toUInt8 ≤ 1 := by
      rw [UInt8.le_iff_toNat_le, hbyte]
      exact Nat.le_of_lt_succ hn
    rw [varint_encode_of_lt (by omega), List.singleton_append, Varint.readFrom, if_pos hle, hbyte]
  | succ room ih =>
    by_cases hn : n < 128
    · have hbyte : n.toUInt8.toNat = n := by simp; omega
      have hlt : n.toUInt8 < 128 := by
        rw [UInt8.lt_iff_toNat_lt, hbyte]
        exact hn
      rw [varint_encode_of_lt hn, List.singleton_append, Varint.readFrom, if_pos hlt, hbyte]
      simp
    · have hpow : Nat.pow 128 (room + 1) = Nat.pow 128 room * 128 := rfl
      have hbyte : ((n % 128 + 128).toUInt8).toNat = n % 128 + 128 := by simp; omega
      have hge : ¬ (n % 128 + 128).toUInt8 < 128 := by
        rw [UInt8.lt_iff_toNat_lt, hbyte]
        simp
      have hrest := ih (n / 128) (by omega)
      have hsplit : (n % 128 + 128) % 128 + 128 * (n / 128) = n := by omega
      rw [varint_encode_of_ge (Nat.le_of_not_lt hn), List.cons_append, Varint.readFrom, if_neg hge,
        hrest, Option.map_some, hbyte]
      · exact congrArg (fun k => some (k, rest)) hsplit
      · simp

lemma readNat_encode {n : Nat} (h : n < UInt64.size) (rest : List UInt8) :
    readNat (Varint.encode n ++ rest) = .ok (n, rest) := by
  have hpow : UInt64.size = 2 * Nat.pow 128 9 := rfl
  rw [readNat, Varint.read?, varint_readFrom_encode 9 n (by omega)]

/-! ### Texts and messages -/

lemma takeDelimited_encode {content : List UInt8} (h : content.length < UInt64.size)
    (rest : List UInt8) :
    takeDelimited (Varint.encode content.length ++ (content ++ rest)) = .ok (content, rest) := by
  have htake : takeBytes content.length (content ++ rest) = .ok (content, rest) := by
    rw [takeBytes, if_neg (by simp), List.splitAt_eq]
    simp
  rw [takeDelimited, readNat_encode h]
  exact htake

lemma readText_encode {s : String} (h : s.utf8ByteSize < UInt64.size) (rest : List UInt8) :
    readText .lengthDelimited (Varint.encode s.utf8ByteSize ++ (Utf8.bytes s ++ rest)) =
      .ok (s, rest) := by
  have htake : takeDelimited (Varint.encode (Utf8.bytes s).length ++ (Utf8.bytes s ++ rest)) =
      .ok (Utf8.bytes s, rest) := takeDelimited_encode h rest
  rw [Utf8.length_bytes] at htake
  simp [readText, htake, Utf8.text?_bytes, bind, Except.bind, pure, Except.pure]

lemma readKey_text (rest : List UInt8) :
    readKey (0x0A :: rest) = .ok (⟨1, .lengthDelimited⟩, rest) := by
  rfl

variable {m : Message} {s : String}

lemma encode_empty (m : Message) : m.encode "" = [] := by
  simp [Message.encode]

lemma encode_text (hm : m.field?.isSome) (hs : s ≠ "") :
    m.encode s = 0x0A :: (Varint.encode s.utf8ByteSize ++ Utf8.bytes s) := by
  have hfield : m.field? ≠ none := Option.isSome_iff_ne_none.1 hm
  simp [Message.encode, hfield, hs]

lemma readField_encode (hm : m.field?.isSome) (hs : s ≠ "") (h : s.utf8ByteSize < UInt64.size)
    (rest : List UInt8) : m.readField (m.encode s ++ rest) = .ok (some s, rest) := by
  have htext := readText_encode h rest
  rw [encode_text hm hs, List.cons_append, List.append_assoc, Message.readField, readKey_text]
  simp [Except.mapError, bind, Except.bind, pure, Except.pure, hm, htext]

theorem decode_encode (hm : m.field?.isSome) (h : s.utf8ByteSize < UInt64.size) :
    m.decode (m.encode s) = .ok s := by
  by_cases hs : s = ""
  · rw [hs, encode_empty]
    rfl
  · have hfield := readField_encode hm hs h []
    rw [List.append_nil] at hfield
    obtain ⟨b, bs, hbs⟩ : ∃ b bs, m.encode s = b :: bs := ⟨_, _, encode_text hm hs⟩
    rw [hbs] at hfield
    rw [hbs, Message.decode, List.length_cons, Message.decodeFrom, hfield]
    · simp [bind, Except.bind, Message.decodeFrom]
    · simp

lemma encode_length (hm : m.field?.isSome) (hs : s ≠ "") :
    (m.encode s).length = 1 + (Varint.encode s.utf8ByteSize).length + s.utf8ByteSize := by
  rw [encode_text hm hs, List.length_cons, List.length_append, Utf8.length_bytes]
  omega

end MemberRelay.Proofs
