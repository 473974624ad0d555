import MemberRelay.Proofs.Actions
import MemberRelay.Proofs.Wire.RoundTrip

/-!
# The records of a message

A grammar of encoded messages that knows nothing of the reader: numbers, keys, contents that are
passed over, and records. The reader takes exactly the strings of records, and the last record with
a text gives the value.
-/

namespace MemberRelay.Proofs
open Wire

/-! ### The grammar -/

/-- The number that bytes hold, seven bits in each and the low bits first. -/
def base128 : List UInt8 → Nat
  | [] => 0
  | b :: bs => b.toNat % 128 + 128 * base128 bs

/-- A number in at most `room` bytes. Just the last byte is below 128, and where it takes the last
room it is at most one. -/
def IsVarint (room n : Nat) (bs : List UInt8) : Prop :=
  ∃ init last, bs = init ++ [last] ∧ (∀ b ∈ init, 128 ≤ b) ∧ last < 128 ∧ bs.length ≤ room ∧
    (bs.length = room → last ≤ 1) ∧ base128 bs = n

/-- A key of at most 32 bits: the shape in the low three bits, and a field number that is not zero
above them. -/
def IsKey (key : Key) (bs : List UInt8) : Prop :=
  ∃ n, IsVarint 10 n bs ∧ n ≤ 4294967295 ∧ Shape.ofNat? (n % 8) = some key.shape ∧
    n / 8 = key.number ∧ 1 ≤ key.number

mutual

/-- The content of a field that is passed over, with fields nested at most `depth` deep. -/
inductive Skipped : Nat → Key → List UInt8 → Prop where
  | varint {depth number n : Nat} {bs : List UInt8} (h : IsVarint 10 n bs) :
      Skipped (depth + 1) ⟨number, .varint⟩ bs
  | sixtyFourBit {depth number : Nat} {bs : List UInt8} (h : bs.length = 8) :
      Skipped (depth + 1) ⟨number, .sixtyFourBit⟩ bs
  | thirtyTwoBit {depth number : Nat} {bs : List UInt8} (h : bs.length = 4) :
      Skipped (depth + 1) ⟨number, .thirtyTwoBit⟩ bs
  | lengthDelimited {depth number : Nat} {len content : List UInt8}
      (h : IsVarint 10 content.length len) :
      Skipped (depth + 1) ⟨number, .lengthDelimited⟩ (len ++ content)
  | group {depth number : Nat} {bs : List UInt8} (h : GroupBody depth number bs) :
      Skipped (depth + 1) ⟨number, .startGroup⟩ bs

/-- The fields of a group and the end key with the number of the group. -/
inductive GroupBody : Nat → Nat → List UInt8 → Prop where
  | close {depth number : Nat} {bs : List UInt8} (h : IsKey ⟨number, .endGroup⟩ bs) :
      GroupBody depth number bs
  | field {depth number : Nat} {key : Key} {ks cs rest : List UInt8} (hkey : IsKey key ks)
      (hcontent : Skipped depth key cs) (hrest : GroupBody depth number rest) :
      GroupBody depth number (ks ++ (cs ++ rest))

end

/-- A record of a message, with its text if it holds one. -/
inductive Record (m : Message) : List UInt8 → Option String → Prop where
  | text {ks len : List UInt8} {s : String} (hm : m.field?.isSome)
      (hkey : IsKey ⟨1, .lengthDelimited⟩ ks) (hlen : IsVarint 10 (Utf8.bytes s).length len) :
      Record m (ks ++ (len ++ Utf8.bytes s)) (some s)
  | skipped {key : Key} {ks cs : List UInt8} (hother : m.field? = none ∨ key.number ≠ 1)
      (hkey : IsKey key ks) (hcontent : Skipped 100 key cs) : Record m (ks ++ cs) none

/-- The last text of records, or `s` if none holds one. -/
def lastText (s : String) (records : List (List UInt8 × Option String)) : String :=
  (records.filterMap Prod.snd).getLast?.getD s

/-! ### Numbers and keys -/

section Numbers

variable {room n : Nat} {bs rest : List UInt8} {b : UInt8}

lemma isVarint_singleton_iff :
    IsVarint room n [b] ↔ b < 128 ∧ 1 ≤ room ∧ (room = 1 → b ≤ 1) ∧ b.toNat = n := by
  have hvalue : b < 128 → base128 [b] = b.toNat := by
    intro hb
    have hlt : b.toNat < 128 := UInt8.lt_iff_toNat_lt.1 hb
    rw [base128, base128]
    omega
  constructor
  · rintro ⟨init, last, hbs, -, hlast, hroom, hfull, hn⟩
    obtain ⟨-, rfl⟩ : init = [] ∧ last = b := by
      simpa [and_comm] using List.singleton_eq_append_iff.1 hbs
    exact ⟨hlast, hroom, fun h => hfull h.symm, (hvalue hlast).symm.trans hn⟩
  · rintro ⟨hb, hroom, hfull, hn⟩
    exact ⟨[], b, rfl, fun c hc => absurd hc List.not_mem_nil, hb, hroom, fun h => hfull h.symm,
      (hvalue hb).trans hn⟩

lemma IsVarint.ne_nil (h : IsVarint room n bs) : bs ≠ [] := by
  obtain ⟨init, last, rfl, -⟩ := h
  simp

/-- A number of more bytes is one more byte in front of a number. -/
lemma isVarint_cons_iff (hbs : bs ≠ []) :
    IsVarint (room + 1) n (b :: bs) ↔
      128 ≤ b ∧ ∃ k, IsVarint room k bs ∧ b.toNat % 128 + 128 * k = n := by
  constructor
  · rintro ⟨init, last, heq, hinit, hlast, hroom, hfull, hn⟩
    cases init with
    | nil =>
      cases heq
      exact absurd rfl hbs
    | cons c init =>
      cases heq
      rw [List.forall_mem_cons] at hinit
      rw [List.length_cons] at hroom hfull
      exact ⟨hinit.1, _, ⟨init, last, rfl, hinit.2, hlast, Nat.le_of_succ_le_succ hroom,
        fun h => hfull (congrArg (· + 1) h), rfl⟩, hn⟩
  · rintro ⟨hb, k, ⟨init, last, rfl, hinit, hlast, hroom, hfull, hk⟩, hn⟩
    refine ⟨b :: init, last, rfl, List.forall_mem_cons.2 ⟨hb, hinit⟩, hlast, ?_, ?_, ?_⟩
    · exact Nat.succ_le_succ hroom
    · exact fun h => hfull (Nat.succ.inj h)
    · rw [base128, hk, hn]

lemma readFrom_eq_some_iff :
    Varint.readFrom room bs = some (n, rest) ↔ ∃ vs, bs = vs ++ rest ∧ IsVarint room n vs := by
  constructor
  · intro h
    fun_induction Varint.readFrom room bs generalizing n with
    | case1 => cases h
    | case2 => cases h
    | case3 b bs hb =>
      cases h
      have hlt : b < 128 := UInt8.lt_of_le_of_lt hb (by decide)
      exact ⟨[b], rfl, isVarint_singleton_iff.2 ⟨hlt, Nat.le_refl 1, fun _ => hb, rfl⟩⟩
    | case4 => cases h
    | case5 room b bs hroom hb =>
      cases h
      have hone : room + 1 = 1 → b ≤ 1 := fun h => absurd (Nat.succ.inj h) hroom
      exact ⟨[b], rfl, isVarint_singleton_iff.2 ⟨hb, Nat.succ_pos room, hone, rfl⟩⟩
    | case6 room b bs hroom hb ih =>
      obtain ⟨⟨k, rest'⟩, hk, heq⟩ := Option.map_eq_some_iff.1 h
      cases heq
      obtain ⟨vs, rfl, hvs⟩ := ih hk
      exact ⟨b :: vs, rfl, (isVarint_cons_iff hvs.ne_nil).2 ⟨UInt8.not_lt.1 hb, k, hvs, rfl⟩⟩
  · rintro ⟨vs, rfl, hvs⟩
    induction vs generalizing room n with
    | nil => exact absurd rfl hvs.ne_nil
    | cons b vs ih =>
      by_cases hnil : vs = []
      · subst hnil
        obtain ⟨hb, hroom, hfull, rfl⟩ := isVarint_singleton_iff.1 hvs
        obtain _ | _ | room := room
        · omega
        · exact if_pos (hfull rfl)
        · exact if_pos hb
      · obtain ⟨-, -, -, -, -, hlen, -⟩ := id hvs
        have hpos := List.length_pos_iff.2 hnil
        rw [List.length_cons] at hlen
        obtain _ | _ | room := room
        · omega
        · omega
        · obtain ⟨hb, k, hk, rfl⟩ := (isVarint_cons_iff hnil).1 hvs
          rw [List.cons_append, Varint.readFrom, if_neg (UInt8.not_lt.2 hb), ih hk]
          · rfl
          · simp

lemma readNat_eq_ok_iff :
    readNat bs = .ok (n, rest) ↔ ∃ vs, bs = vs ++ rest ∧ IsVarint 10 n vs := by
  rw [← readFrom_eq_some_iff, readNat, Varint.read?]
  cases Varint.readFrom 10 bs with
  | none => simp
  | some r =>
    exact ⟨fun h => congrArg some (Except.ok.inj h), fun h => congrArg _ (Option.some.inj h)⟩

lemma key_ofNat_eq_ok_iff {key : Key} :
    Key.ofNat n = .ok key ↔ n ≤ 4294967295 ∧ Shape.ofNat? (n % 8) = some key.shape ∧
      n / 8 = key.number ∧ 1 ≤ key.number := by
  have hsize : UInt32.size = 4294967296 := rfl
  rw [Key.ofNat, hsize]
  split
  · exact ⟨nofun, fun h => by omega⟩
  · split
    · next hshape => exact ⟨nofun, fun h => by rw [hshape] at h; cases h.2.1⟩
    · next shape hshape =>
      split
      · exact ⟨nofun, fun h => by omega⟩
      · next hzero =>
        rw [hshape]
        constructor
        · intro h
          cases h
          exact ⟨by omega, rfl, rfl, Nat.pos_of_ne_zero hzero⟩
        · rintro ⟨-, hs, hn, -⟩
          rw [Option.some.inj hs, hn]

lemma readKey_eq_ok_iff {key : Key} :
    readKey bs = .ok (key, rest) ↔ ∃ ks, bs = ks ++ rest ∧ IsKey key ks := by
  rw [readKey, bind_eq_ok_iff]
  constructor
  · rintro ⟨⟨n, stop⟩, hread, h⟩
    obtain ⟨key', hkey, heq⟩ := bind_eq_ok_iff.1 h
    cases heq
    obtain ⟨ks, hks, hn⟩ := readNat_eq_ok_iff.1 hread
    exact ⟨ks, hks, n, hn, key_ofNat_eq_ok_iff.1 hkey⟩
  · rintro ⟨ks, hks, n, hn, hkey⟩
    refine ⟨(n, rest), readNat_eq_ok_iff.2 ⟨ks, hks, hn⟩, ?_⟩
    exact bind_eq_ok_iff.2 ⟨key, key_ofNat_eq_ok_iff.2 hkey, rfl⟩

lemma IsKey.ne_nil {key : Key} (h : IsKey key bs) : bs ≠ [] := by
  obtain ⟨n, hn, -⟩ := h
  exact hn.ne_nil

end Numbers

/-! ### Contents -/

section Contents

variable {depth : Nat} {key : Key} {bs rest content : List UInt8}

lemma takeBytes_eq_ok_iff {n : Nat} :
    takeBytes n bs = .ok (content, rest) ↔ bs = content ++ rest ∧ content.length = n := by
  unfold takeBytes
  split
  · next hlen =>
    refine ⟨nofun, ?_⟩
    rintro ⟨rfl, rfl⟩
    rw [List.length_append] at hlen
    omega
  · next hlen =>
    rw [List.splitAt_eq]
    constructor
    · intro h
      cases h
      exact ⟨(List.take_append_drop n bs).symm, List.length_take_of_le (Nat.le_of_not_lt hlen)⟩
    · rintro ⟨rfl, rfl⟩
      rw [List.take_left, List.drop_left]

lemma takeDelimited_eq_ok_iff :
    takeDelimited bs = .ok (content, rest) ↔
      ∃ len, bs = len ++ (content ++ rest) ∧ IsVarint 10 content.length len := by
  rw [takeDelimited, bind_eq_ok_iff]
  constructor
  · rintro ⟨⟨n, stop⟩, hread, htake⟩
    obtain ⟨len, rfl, hn⟩ := readNat_eq_ok_iff.1 hread
    obtain ⟨rfl, rfl⟩ := takeBytes_eq_ok_iff.1 htake
    exact ⟨len, rfl, hn⟩
  · rintro ⟨len, rfl, hn⟩
    exact ⟨_, readNat_eq_ok_iff.2 ⟨len, rfl, hn⟩, takeBytes_eq_ok_iff.2 ⟨rfl, rfl⟩⟩

lemma map_snd_eq_ok_iff {ε α β : Type} {x : Except ε (α × β)} {b : β} :
    x.map (·.2) = .ok b ↔ ∃ a, x = .ok (a, b) := by
  rw [map_eq_ok_iff]
  constructor
  · rintro ⟨⟨a, _⟩, h, rfl⟩
    exact ⟨a, h⟩
  · rintro ⟨a, h⟩
    exact ⟨(a, b), h, rfl⟩

/-- The reader of contents takes just the contents of a depth. -/
def SkipsJust (skip : Key → List UInt8 → Except Fault (List UInt8)) (depth : Nat) : Prop :=
  ∀ key bs rest, skip key bs = .ok rest ↔ ∃ cs, bs = cs ++ rest ∧ Skipped depth key cs

variable {skip : Key → List UInt8 → Except Fault (List UInt8)} {number fuel : Nat}

lemma groupBody_of_skipGroup (hskip : SkipsJust skip depth)
    (h : skipGroup skip number fuel bs = .ok rest) :
    ∃ gs, bs = gs ++ rest ∧ GroupBody depth number gs := by
  induction fuel generalizing bs with
  | zero => cases h
  | succ fuel ih =>
    obtain ⟨⟨key, stop⟩, hread, hnext⟩ := bind_eq_ok_iff.1 h
    obtain ⟨ks, rfl, hkey⟩ := readKey_eq_ok_iff.1 hread
    dsimp only at hnext
    split at hnext
    · next hshape =>
      split at hnext
      · next hnumber =>
        cases hnext
        obtain ⟨n, shape⟩ := key
        cases hshape
        cases hnumber
        exact ⟨ks, rfl, .close hkey⟩
      · cases hnext
    · obtain ⟨stop', hcontent, hrest⟩ := bind_eq_ok_iff.1 hnext
      obtain ⟨cs, rfl, hcs⟩ := (hskip key stop stop').1 hcontent
      obtain ⟨gs, rfl, hgs⟩ := ih hrest
      exact ⟨ks ++ (cs ++ gs), by simp only [List.append_assoc], .field hkey hcs hgs⟩

/-- The key of a field in front of the end key is none itself. -/
lemma Skipped.shape_ne {cs : List UInt8} (h : Skipped depth key cs) : key.shape ≠ .endGroup := by
  cases h <;> exact nofun

/-- Each field of a group takes a byte at least, so there is fuel for all of them. -/
lemma skipGroup_of_groupBody (hskip : SkipsJust skip depth) {gs : List UInt8}
    (h : GroupBody depth number gs) (hfuel : gs.length < fuel) :
    skipGroup skip number fuel (gs ++ rest) = .ok rest := by
  induction fuel generalizing gs with
  | zero => omega
  | succ fuel ih =>
    refine bind_eq_ok_iff.2 ?_
    cases h with
    | close hkey =>
      refine ⟨_, readKey_eq_ok_iff.2 ⟨gs, rfl, hkey⟩, ?_⟩
      dsimp only
      rw [if_pos rfl, if_pos rfl]
    | @field _ _ key ks cs gs hkey hcontent hrest =>
      have hpos := List.length_pos_iff.2 hkey.ne_nil
      simp only [List.length_append] at hfuel
      have hgroup := ih hrest (by omega)
      refine ⟨(key, cs ++ gs ++ rest), readKey_eq_ok_iff.2 ⟨ks, ?_, hkey⟩, ?_⟩
      · simp only [List.append_assoc]
      · dsimp only
        rw [if_neg hcontent.shape_ne]
        refine bind_eq_ok_iff.2 ⟨gs ++ rest, (hskip key _ _).2 ⟨cs, ?_, hcontent⟩, hgroup⟩
        rw [List.append_assoc]

lemma skipContent_skipsJust (depth : Nat) : SkipsJust (skipContent depth) depth := by
  induction depth with
  | zero =>
    intro key bs rest
    exact ⟨nofun, fun ⟨_, _, h⟩ => nomatch h⟩
  | succ depth ih =>
    rintro ⟨number, shape⟩ bs rest
    cases shape with
    | varint =>
      refine map_snd_eq_ok_iff.trans ⟨?_, ?_⟩
      · rintro ⟨n, hread⟩
        obtain ⟨vs, rfl, hvs⟩ := readNat_eq_ok_iff.1 hread
        exact ⟨vs, rfl, .varint hvs⟩
      · rintro ⟨cs, rfl, hcs⟩
        cases hcs with
        | varint hvs => exact ⟨_, readNat_eq_ok_iff.2 ⟨cs, rfl, hvs⟩⟩
    | sixtyFourBit =>
      refine map_snd_eq_ok_iff.trans ⟨?_, ?_⟩
      · rintro ⟨cs, htake⟩
        obtain ⟨rfl, hlen⟩ := takeBytes_eq_ok_iff.1 htake
        exact ⟨cs, rfl, .sixtyFourBit hlen⟩
      · rintro ⟨cs, rfl, hcs⟩
        cases hcs with
        | sixtyFourBit hlen => exact ⟨cs, takeBytes_eq_ok_iff.2 ⟨rfl, hlen⟩⟩
    | thirtyTwoBit =>
      refine map_snd_eq_ok_iff.trans ⟨?_, ?_⟩
      · rintro ⟨cs, htake⟩
        obtain ⟨rfl, hlen⟩ := takeBytes_eq_ok_iff.1 htake
        exact ⟨cs, rfl, .thirtyTwoBit hlen⟩
      · rintro ⟨cs, rfl, hcs⟩
        cases hcs with
        | thirtyTwoBit hlen => exact ⟨cs, takeBytes_eq_ok_iff.2 ⟨rfl, hlen⟩⟩
    | lengthDelimited =>
      refine map_snd_eq_ok_iff.trans ⟨?_, ?_⟩
      · rintro ⟨content, htake⟩
        obtain ⟨len, rfl, hlen⟩ := takeDelimited_eq_ok_iff.1 htake
        exact ⟨len ++ content, (List.append_assoc ..).symm, .lengthDelimited hlen⟩
      · rintro ⟨cs, rfl, hcs⟩
        cases hcs with
        | lengthDelimited hlen =>
          exact ⟨_, takeDelimited_eq_ok_iff.2 ⟨_, List.append_assoc .., hlen⟩⟩
    | startGroup =>
      constructor
      · intro h
        obtain ⟨gs, hgs, hbody⟩ := groupBody_of_skipGroup ih h
        exact ⟨gs, hgs, .group hbody⟩
      · rintro ⟨cs, rfl, hcs⟩
        cases hcs with
        | group hbody =>
          refine skipGroup_of_groupBody ih hbody ?_
          rw [List.length_append]
          omega
    | endGroup => exact ⟨nofun, fun ⟨_, _, h⟩ => nomatch h⟩

end Contents

/-! ### Records -/

section Records

variable {m : Message} {bs rest : List UInt8} {s t : String}

lemma readText_eq_ok_iff {shape : Shape} :
    readText shape bs = .ok (s, rest) ↔ shape = .lengthDelimited ∧
      ∃ len, bs = len ++ (Utf8.bytes s ++ rest) ∧ IsVarint 10 (Utf8.bytes s).length len := by
  by_cases hshape : shape = .lengthDelimited
  · rw [readText, if_neg (not_not.2 hshape), and_iff_right hshape]
    refine bind_eq_ok_iff.trans ?_
    constructor
    · rintro ⟨⟨content, stop⟩, htake, h⟩
      dsimp only at h
      split at h
      · next htext =>
        cases h
        rw [Utf8.text?_eq_some_iff.1 htext] at htake
        exact takeDelimited_eq_ok_iff.1 htake
      · cases h
    · intro h
      refine ⟨_, takeDelimited_eq_ok_iff.2 h, ?_⟩
      dsimp only
      rw [Utf8.text?_bytes]
      rfl
  · rw [readText, if_pos hshape]
    constructor
    · intro h
      cases h
    · exact fun h => absurd h.1 hshape

lemma mapError_eq_ok_iff {ε ε' α : Type} {f : ε → ε'} {x : Except ε α} {a : α} :
    x.mapError f = .ok a ↔ x = .ok a := by
  cases x with
  | error e => exact ⟨nofun, nofun⟩
  | ok b => exact ⟨fun h => congrArg _ (Except.ok.inj h), fun h => congrArg _ (Except.ok.inj h)⟩

theorem readField_eq_ok_iff {text? : Option String} :
    m.readField bs = .ok (text?, rest) ↔ ∃ rs, bs = rs ++ rest ∧ Record m rs text? := by
  rw [Message.readField, bind_eq_ok_iff]
  constructor
  · rintro ⟨⟨key, stop⟩, hread, h⟩
    obtain ⟨ks, rfl, hkey⟩ := readKey_eq_ok_iff.1 (mapError_eq_ok_iff.1 hread)
    dsimp only at h
    split at h
    · next hfield =>
      obtain ⟨⟨s, stop'⟩, htext, h⟩ := bind_eq_ok_iff.1 h
      cases h
      obtain ⟨hshape, len, rfl, hlen⟩ := readText_eq_ok_iff.1 (mapError_eq_ok_iff.1 htext)
      have hone : key = ⟨1, .lengthDelimited⟩ := by
        rw [← hfield.2, ← hshape]
      rw [hone] at hkey
      exact ⟨_, by simp only [List.append_assoc], .text hfield.1 hkey hlen⟩
    · next hfield =>
      obtain ⟨stop', hskip, h⟩ := bind_eq_ok_iff.1 h
      cases h
      obtain ⟨cs, rfl, hcs⟩ :=
        (skipContent_skipsJust _ key stop _).1 (mapError_eq_ok_iff.1 hskip)
      have hother : m.field? = none ∨ key.number ≠ 1 := by
        by_cases hnone : m.field? = none
        · exact .inl hnone
        · exact .inr fun hone => hfield ⟨Option.isSome_iff_ne_none.2 hnone, hone⟩
      exact ⟨ks ++ cs, (List.append_assoc ..).symm, .skipped hother hkey hcs⟩
  · rintro ⟨rs, rfl, hrecord⟩
    cases hrecord with
    | @text ks len s hm hkey hlen =>
      refine ⟨(⟨1, .lengthDelimited⟩, len ++ (Utf8.bytes s ++ rest)), ?_, ?_⟩
      · refine mapError_eq_ok_iff.2 (readKey_eq_ok_iff.2 ⟨ks, ?_, hkey⟩)
        simp only [List.append_assoc]
      · dsimp only
        rw [if_pos ⟨hm, rfl⟩]
        refine bind_eq_ok_iff.2 ⟨(s, rest), ?_, rfl⟩
        exact mapError_eq_ok_iff.2 (readText_eq_ok_iff.2 ⟨rfl, len, rfl, hlen⟩)
    | @skipped key ks cs hother hkey hcs =>
      refine ⟨(key, cs ++ rest), ?_, ?_⟩
      · refine mapError_eq_ok_iff.2 (readKey_eq_ok_iff.2 ⟨ks, ?_, hkey⟩)
        exact List.append_assoc ..
      · have hnot : ¬(m.field?.isSome ∧ key.number = 1) := by
          rintro ⟨hsome, hone⟩
          rcases hother with hnone | hne
          · rw [hnone] at hsome
            cases hsome
          · exact hne hone
        dsimp only
        rw [if_neg hnot]
        refine bind_eq_ok_iff.2 ⟨rest, ?_, rfl⟩
        exact mapError_eq_ok_iff.2 ((skipContent_skipsJust _ key _ _).2 ⟨cs, rfl, hcs⟩)

lemma Record.ne_nil {rs : List UInt8} {text? : Option String} (h : Record m rs text?) : rs ≠ [] := by
  cases h with
  | text hm hkey hlen => simp [hkey.ne_nil]
  | skipped hother hkey hcontent => simp [hkey.ne_nil]

lemma lastText_cons (r : List UInt8 × Option String) (records : List (List UInt8 × Option String)) :
    lastText s (r :: records) = lastText (r.2.getD s) records := by
  obtain ⟨rs, _ | t⟩ := r
  · rfl
  · rw [lastText, lastText, List.filterMap_cons_some (f := Prod.snd) (a := (rs, some t)) rfl,
      List.getLast?_cons]
    rfl

/-- Each record takes a byte at least, so the fuel left is enough for what follows. -/
lemma decodeFrom_records (s : String) (rest : List UInt8)
    {records : List (List UInt8 × Option String)} {fuel : Nat}
    (hrecords : ∀ r ∈ records, Record m r.1 r.2)
    (hfuel : ((records.map Prod.fst).flatten ++ rest).length ≤ fuel) :
    ∃ left, rest.length ≤ left ∧ m.decodeFrom s fuel ((records.map Prod.fst).flatten ++ rest) =
      m.decodeFrom (lastText s records) left rest := by
  induction records generalizing s fuel with
  | nil => exact ⟨fuel, hfuel, rfl⟩
  | cons r records ih =>
    rw [List.forall_mem_cons] at hrecords
    have hpos := List.length_pos_iff.2 hrecords.1.ne_nil
    rw [List.map_cons, List.flatten_cons, List.append_assoc] at hfuel ⊢
    rw [List.length_append] at hfuel
    obtain ⟨fuel, rfl⟩ : ∃ k, fuel = k + 1 := ⟨fuel - 1, by omega⟩
    have hshort : ((records.map Prod.fst).flatten ++ rest).length ≤ fuel := by omega
    obtain ⟨left, hleft, hrest⟩ := ih (r.2.getD s) hrecords.2 hshort
    have hfield : m.readField (r.1 ++ ((records.map Prod.fst).flatten ++ rest)) =
        .ok (r.2, (records.map Prod.fst).flatten ++ rest) :=
      readField_eq_ok_iff.2 ⟨r.1, rfl, hrecords.1⟩
    refine ⟨left, hleft, ?_⟩
    rw [Message.decodeFrom, hfield, lastText_cons]
    · exact hrest
    · intro hnil
      exact hrecords.1.ne_nil (List.append_eq_nil_iff.1 hnil).1

lemma records_of_decodeFrom {fuel : Nat} (hfuel : bs.length ≤ fuel)
    (h : m.decodeFrom s fuel bs = .ok t) :
    ∃ records : List (List UInt8 × Option String), bs = (records.map Prod.fst).flatten ∧
      (∀ r ∈ records, Record m r.1 r.2) ∧ t = lastText s records := by
  induction fuel generalizing s bs with
  | zero =>
    rw [List.length_eq_zero_iff.1 (Nat.le_zero.1 hfuel)] at h ⊢
    cases h
    exact ⟨[], rfl, nofun, rfl⟩
  | succ fuel ih =>
    cases bs with
    | nil =>
      cases h
      exact ⟨[], rfl, nofun, rfl⟩
    | cons b bs =>
      obtain ⟨⟨text?, rest⟩, hfield, hnext⟩ := bind_eq_ok_iff.1 h
      obtain ⟨rs, hbs, hrecord⟩ := readField_eq_ok_iff.1 hfield
      have hpos := List.length_pos_iff.2 hrecord.ne_nil
      rw [hbs, List.length_append] at hfuel
      obtain ⟨records, hrest, hrecords, ht⟩ := ih (by omega) hnext
      refine ⟨(rs, text?) :: records, ?_, List.forall_mem_cons.2 ⟨hrecord, hrecords⟩, ?_⟩
      · rw [hbs, hrest, List.map_cons, List.flatten_cons]
      · rw [lastText_cons, ht]

lemma decode_eq_ok_iff :
    m.decode bs = .ok t ↔ ∃ records : List (List UInt8 × Option String),
      bs = (records.map Prod.fst).flatten ∧ (∀ r ∈ records, Record m r.1 r.2) ∧
        t = lastText "" records := by
  constructor
  · exact records_of_decodeFrom (Nat.le_refl _)
  · rintro ⟨records, rfl, hrecords, rfl⟩
    obtain ⟨left, -, hdecode⟩ := decodeFrom_records "" [] hrecords (Nat.le_refl _)
    rw [List.append_nil] at hdecode
    rw [Message.decode, hdecode]
    cases left <;> rfl

/-- No record begins with an end key. -/
lemma Record.shape_ne {rs ks : List UInt8} {text? : Option String} {key : Key}
    (h : Record m rs text?) (hkey : IsKey key ks) (heq : ks ++ bs = rs ++ rest) :
    key.shape ≠ .endGroup := by
  -- The key at the front is read in one way only.
  have hread : readKey (rs ++ rest) = .ok (key, bs) := readKey_eq_ok_iff.2 ⟨ks, heq.symm, hkey⟩
  cases h with
  | @text ks' len s hm hkey' hlen =>
    have hread' : readKey (ks' ++ (len ++ Utf8.bytes s) ++ rest) = .ok (⟨1, .lengthDelimited⟩, _) :=
      readKey_eq_ok_iff.2 ⟨ks', List.append_assoc .., hkey'⟩
    rw [hread'] at hread
    cases hread
    exact nofun
  | @skipped key' ks' cs hother hkey' hcontent =>
    have hread' : readKey (ks' ++ cs ++ rest) = .ok (key', _) :=
      readKey_eq_ok_iff.2 ⟨ks', List.append_assoc .., hkey'⟩
    rw [hread'] at hread
    cases hread
    exact hcontent.shape_ne

lemma decode_records_endGroup {records : List (List UInt8 × Option String)} {key : Key}
    {ks : List UInt8} (hrecords : ∀ r ∈ records, Record m r.1 r.2) (hkey : IsKey key ks)
    (hend : key.shape = .endGroup) :
    m.decode ((records.map Prod.fst).flatten ++ (ks ++ rest)) ≠ .ok t := by
  obtain ⟨left, hleft, hdecode⟩ :=
    decodeFrom_records "" (ks ++ rest) hrecords (Nat.le_refl _)
  intro h
  rw [Message.decode, hdecode] at h
  obtain ⟨records', heq, hrecords', -⟩ := records_of_decodeFrom hleft h
  cases records' with
  | nil => exact hkey.ne_nil (List.append_eq_nil_iff.1 heq).1
  | cons r records' =>
    rw [List.forall_mem_cons] at hrecords'
    exact hrecords'.1.shape_ne hkey heq hend

/-- A message is decoded exactly from a string of its records, and its value is the last text among
them. An end key where a record could begin is refused, whatever follows it. -/
theorem decode_eq_ok_iff_records (m : Message) (bs : List UInt8) (s : String) :
    (m.decode bs = .ok s ↔ ∃ records : List (List UInt8 × Option String),
      bs = (records.map Prod.fst).flatten ∧ (∀ r ∈ records, Record m r.1 r.2) ∧
        s = ((records.filterMap Prod.snd).getLast?).getD "") ∧
      ∀ (records : List (List UInt8 × Option String)) (key : Key) (ks rest : List UInt8),
        (∀ r ∈ records, Record m r.1 r.2) → IsKey key ks → key.shape = .endGroup →
          m.decode ((records.map Prod.fst).flatten ++ (ks ++ rest)) ≠ .ok s := by
  constructor
  · exact decode_eq_ok_iff
  · intro records key ks rest hrecords hkey hend
    exact decode_records_endGroup hrecords hkey hend

/-- A text in a group does not count. -/
example : Message.jsonRequest.decode [0x0A, 1, 0x42, 0x13, 0x0A, 1, 0x41, 0x14] = .ok "B" := rfl

end Records

end MemberRelay.Proofs
