/-!
Bytes and texts. A text is well-formed UTF-8; `lossy` reads any bytes, one replacement character
for each longest start of a sequence that cannot be continued.
-/

namespace MemberRelay.Utf8

def bytes (s : String) : List UInt8 := s.toUTF8.data.toList

/-- The text that the bytes spell, if they are well formed. -/
def text? (bs : List UInt8) : Option String := String.fromUTF8? ⟨bs.toArray⟩

theorem text?_eq_some_iff {bs : List UInt8} {s : String} : text? bs = some s ↔ bs = bytes s := by
  unfold text? bytes String.fromUTF8?
  constructor
  · intro h
    split at h
    · simp only [Option.some.injEq] at h
      subst h
      simp [String.fromUTF8]
    · simp at h
  · rintro rfl
    have h : (⟨s.toUTF8.data.toList.toArray⟩ : ByteArray) = s.toByteArray := rfl
    rw [h, dif_pos s.isValidUTF8]
    rfl

theorem text?_bytes (s : String) : text? (bytes s) = some s := text?_eq_some_iff.2 rfl

theorem length_bytes (s : String) : (bytes s).length = s.utf8ByteSize := rfl

/-- How many bytes follow a leading byte, and the least and greatest value of the next one. The
narrow ranges keep out overlong forms, surrogates and values above the last code point. -/
def continuation? (lead : UInt8) : Option (Nat × UInt8 × UInt8) :=
  if lead < 0xC2 then none
  else if lead < 0xE0 then some (1, 0x80, 0xBF)
  else if lead = 0xE0 then some (2, 0xA0, 0xBF)
  else if lead = 0xED then some (2, 0x80, 0x9F)
  else if lead < 0xF0 then some (2, 0x80, 0xBF)
  else if lead = 0xF0 then some (3, 0x90, 0xBF)
  else if lead < 0xF4 then some (3, 0x80, 0xBF)
  else if lead = 0xF4 then some (3, 0x80, 0x8F)
  else none

/-- Reads `n` continuation bytes onto `value`; at a byte that does not belong it stops there. -/
def continued : Nat → Nat → List UInt8 → Option Char × List UInt8
  | 0, value, rest => (some (Char.ofNat value), rest)
  | _ + 1, _, [] => (none, [])
  | n + 1, value, b :: rest =>
    if 0x80 ≤ b ∧ b ≤ 0xBF then continued n (value * 64 + b.toNat % 64) rest else (none, b :: rest)

/-- One character, or `none` for a sequence that breaks off, and the bytes after it. -/
def next (lead : UInt8) (rest : List UInt8) : Option Char × List UInt8 :=
  if lead < 0x80 then (some (Char.ofNat lead.toNat), rest)
  else match continuation? lead, rest with
    | none, _ => (none, rest)
    | some _, [] => (none, [])
    | some (n, least, greatest), b :: rest' =>
      if least ≤ b ∧ b ≤ greatest then
        continued (n - 1) (lead.toNat % Nat.pow 2 (6 - n) * 64 + b.toNat % 64) rest'
      else (none, rest)

theorem length_continued_le (n value : Nat) (bs : List UInt8) :
    (continued n value bs).2.length ≤ bs.length := by
  induction n generalizing value bs with
  | zero => simp [continued]
  | succ n ih =>
    cases bs with
    | nil => simp [continued]
    | cons b bs =>
      rw [continued]
      split
      · exact Nat.le_succ_of_le (ih _ bs)
      · exact Nat.le_refl _

theorem length_next_le (lead : UInt8) (rest : List UInt8) :
    (next lead rest).2.length ≤ rest.length := by
  unfold next
  split
  · simp
  · split
    · simp
    · simp
    · split
      · exact Nat.le_succ_of_le (length_continued_le _ _ _)
      · simp

/-- The characters of the bytes, U+FFFD for what is not UTF-8. -/
def lossyChars : List UInt8 → List Char
  | [] => []
  | b :: rest => (next b rest).1.getD '\uFFFD' :: lossyChars (next b rest).2
termination_by bs => bs.length
decreasing_by exact Nat.lt_succ_of_le (length_next_le b rest)

/-- The text of the bytes, U+FFFD for what is not UTF-8. -/
def lossy (bs : List UInt8) : String := String.ofList (lossyChars bs)

end MemberRelay.Utf8
