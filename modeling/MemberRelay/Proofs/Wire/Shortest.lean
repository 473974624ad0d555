import MemberRelay.Proofs.Text.Bytes
import MemberRelay.Proofs.Wire.Records

/-!
# The shortest message

Many strings of bytes decode to one text: numbers may be padded, fields that nobody knows may stand
anywhere, and texts may be overridden. What is written for a text is shorter than all others.
-/

namespace MemberRelay.Proofs
open Wire

/-! ### Numbers and keys -/

section Numbers

variable {room n : Nat} {bs : List UInt8}

/-- No spelling of a number is shorter than the one that is written, and no other is as short. -/
lemma IsVarint.encode_shortest (h : IsVarint room n bs) :
    (Varint.encode n).length ≤ bs.length ∧
      (bs.length ≤ (Varint.encode n).length → bs = Varint.encode n) := by
  induction bs generalizing room n with
  | nil => exact absurd rfl h.ne_nil
  | cons b bs ih =>
    by_cases hnil : bs = []
    · subst hnil
      obtain ⟨hb, -, -, rfl⟩ := isVarint_singleton_iff.1 h
      rw [varint_encode_of_lt (UInt8.lt_iff_toNat_lt.1 hb)]
      exact ⟨Nat.le_refl _, fun _ => by rw [Nat.toUInt8_eq, UInt8.ofNat_toNat]⟩
    · have hpos := List.length_pos_iff.2 hnil
      obtain _ | room := room
      · obtain ⟨-, -, -, -, -, hlen, -⟩ := h
        exact absurd hlen (Nat.not_succ_le_zero _)
      · obtain ⟨hb, k, hk, hn⟩ := (isVarint_cons_iff hnil).1 h
        have hlow : 128 ≤ b.toNat := UInt8.le_iff_toNat_le.1 hb
        have hhigh : b.toNat < 256 := b.toNat_lt
        by_cases hlt : n < 128
        · -- The bytes after the first add nothing: they pad the number.
          rw [varint_encode_of_lt hlt, List.length_singleton, List.length_cons]
          exact ⟨by omega, fun hle => by omega⟩
        · have hrest := ih hk
          have hdiv : n / 128 = k := by omega
          have hmod : n % 128 + 128 = b.toNat := by omega
          rw [varint_encode_of_ge (Nat.le_of_not_lt hlt), hdiv, hmod, List.length_cons,
            List.length_cons]
          refine ⟨by omega, fun hle => ?_⟩
          rw [← hrest.2 (by omega), Nat.toUInt8_eq, UInt8.ofNat_toNat]

lemma eq_two_of_ofNat? (h : Shape.ofNat? n = some .lengthDelimited) : n = 2 := by
  unfold Shape.ofNat? at h
  split at h
  all_goals first
    | rfl
    | cases h

lemma isVarint_of_textKey (h : IsKey ⟨1, .lengthDelimited⟩ bs) : IsVarint 10 10 bs := by
  obtain ⟨n, hn, -, hshape, hnumber, -⟩ := h
  have htwo := eq_two_of_ofNat? hshape
  have hone : n / 8 = 1 := hnumber
  have hten : n = 10 := by omega
  rwa [hten] at hn

end Numbers

/-! ### Records and messages -/

section Messages

variable {m : Message} {s t : String} {bs : List UInt8}

lemma Record.encode_shortest (hs : s ≠ "") (h : Record m bs (some s)) :
    (m.encode s).length ≤ bs.length ∧ (bs.length ≤ (m.encode s).length → bs = m.encode s) := by
  cases h with
  | @text ks len _ hm hkey hlen =>
    have hkey := (isVarint_of_textKey hkey).encode_shortest
    have hlen := hlen.encode_shortest
    have hten : Varint.encode 10 = [0x0A] := varint_encode_of_lt (by decide)
    have hencode : m.encode s =
        Varint.encode 10 ++ (Varint.encode (Utf8.bytes s).length ++ Utf8.bytes s) := by
      rw [encode_text hm hs, hten, Utf8.length_bytes]
      rfl
    rw [hencode]
    simp only [List.length_append]
    refine ⟨by omega, fun hle => ?_⟩
    rw [hkey.2 (by omega), hlen.2 (by omega)]

/-- A text that is not empty comes from a record of its own. -/
lemma exists_record_of_decode (hs : s ≠ "") (h : m.decode bs = .ok s) :
    ∃ before rs after, bs = before ++ (rs ++ after) ∧ Record m rs (some s) := by
  obtain ⟨records, rfl, hrecords, hlast⟩ := decode_eq_ok_iff.1 h
  rw [lastText] at hlast
  cases htext : (records.filterMap Prod.snd).getLast? with
  | none =>
    rw [htext] at hlast
    exact absurd hlast hs
  | some t =>
    rw [htext] at hlast
    have hmem := List.mem_of_getLast? htext
    rw [List.mem_filterMap] at hmem
    obtain ⟨⟨rs, text?⟩, hr, rfl⟩ := hmem
    obtain ⟨before, after, rfl⟩ := List.append_of_mem hr
    rw [Option.getD_some] at hlast
    subst hlast
    refine ⟨(before.map Prod.fst).flatten, rs, (after.map Prod.fst).flatten, ?_, hrecords _ hr⟩
    simp

lemma encode_shortest_of_decode (h : m.decode bs = .ok s) :
    (m.encode s).length ≤ bs.length ∧ (bs.length ≤ (m.encode s).length → bs = m.encode s) := by
  by_cases hs : s = ""
  · subst hs
    rw [encode_empty]
    exact ⟨Nat.zero_le _, fun hle => List.length_eq_zero_iff.1 (Nat.le_zero.1 hle)⟩
  · obtain ⟨before, rs, after, rfl, hrecord⟩ := exists_record_of_decode hs h
    have hrs := hrecord.encode_shortest hs
    simp only [List.length_append]
    refine ⟨by omega, fun hle => ?_⟩
    rw [List.length_eq_zero_iff.1 (show before.length = 0 by omega),
      List.length_eq_zero_iff.1 (show after.length = 0 by omega), List.nil_append, List.append_nil]
    exact hrs.2 (by omega)

/-- What is written for a text is read back as that text, and everything else that is read as the
text is longer. So no two texts are written alike, and just the empty text is written as nothing. -/
theorem encode_is_shortest (hm : m.field?.isSome) (hs : s.utf8ByteSize < 4294967296) :
    m.decode (m.encode s) = .ok s ∧
      (∀ bs, m.decode bs = .ok s → bs ≠ m.encode s → (m.encode s).length < bs.length) ∧
      (∀ bs, m.decode bs = .ok s → (m.decode bs).map m.encode = .ok (m.encode s)) ∧
      (∀ t, t.utf8ByteSize < 4294967296 → m.encode t = m.encode s → t = s) ∧
      (m.encode s = [] ↔ s = "") := by
  have hsize : UInt64.size = 18446744073709551616 := rfl
  have hback : ∀ t : String, t.utf8ByteSize < 4294967296 → m.decode (m.encode t) = .ok t :=
    fun t ht => decode_encode hm (by omega)
  have hinjective : ∀ t : String, t.utf8ByteSize < 4294967296 → m.encode t = m.encode s → t = s := by
    intro t ht heq
    have hdecode := hback t ht
    rw [heq, hback s hs] at hdecode
    exact (Except.ok.inj hdecode).symm
  refine ⟨hback s hs, ?_, ?_, hinjective, ?_⟩
  · intro bs hbs hne
    have hshortest := encode_shortest_of_decode hbs
    exact Nat.lt_of_not_le fun hle => hne (hshortest.2 hle)
  · intro bs hbs
    rw [hbs]
    rfl
  · constructor
    · intro hnil
      refine (hinjective "" (by decide) ?_).symm
      rw [encode_empty, hnil]
    · rintro rfl
      exact encode_empty m

/-- The text of one letter, and the same text with its length padded. -/
theorem encode_is_shortest_letter :
    Message.jsonRequest.field?.isSome ∧ "A".utf8ByteSize < 4294967296 ∧
      Message.jsonRequest.decode [0x0A, 0x81, 0x00, 0x41] = .ok "A" ∧
      (Message.jsonRequest.encode "A").length < 4 := by
  have hdecode : Message.jsonRequest.decode [0x0A, 0x81, 0x00, 0x41] = .ok "A" := by rfl
  have hencode : Message.jsonRequest.encode "A" = [0x0A, 0x01, 0x41] := by
    rw [encode_text rfl (by decide), varint_encode_of_lt (by decide)]
    rfl
  have hshortest := encode_is_shortest (m := .jsonRequest) (s := "A") rfl (by decide)
  exact ⟨rfl, by decide, hdecode, hshortest.2.1 _ hdecode (by rw [hencode]; decide)⟩

end Messages

end MemberRelay.Proofs
