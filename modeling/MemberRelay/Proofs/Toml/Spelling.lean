import Mathlib.Data.Bool.AllAny
import Mathlib.Data.List.TakeWhile
import MemberRelay.Proofs.Text.Decimal
import MemberRelay.Proofs.Toml.Written

/-!
# Spellings of scalars

How a text may write booleans, whole numbers and strings, told without the readers. The reader takes
just what is spelled and leaves the rest.
-/

namespace MemberRelay.Proofs
open Toml

/-- The characters that can follow a value: blanks, and what starts a comment, a line end, the next
pair or the end of a table in braces. -/
def stops : List Char := [' ', '\t', '#', '\n', '\r', ',', '\x7d']

/-- A value ends here. -/
def Stops (cs : List Char) : Prop := ∀ c, cs.head? = some c → c ∈ stops

/-- The letters that stand for a character after a backslash. -/
def letters : List (Char × Char) :=
  [('b', '\x08'), ('t', '\t'), ('n', '\n'), ('f', '\x0c'), ('r', '\r'), ('"', '"'), ('\\', '\\')]

/-- A character in a string: as it is, or after a backslash by a letter or by the digits of its
number. -/
inductive SpellsChar : Char → List Char → Prop where
  | plain {c : Char} (htext : isText c) (hquote : c ≠ '"') (hslash : c ≠ '\\') : SpellsChar c [c]
  | letter {c l : Char} (h : (l, c) ∈ letters) : SpellsChar c ['\\', l]
  | four {c : Char} {ds : List Char} (hlength : ds.length = 4) (hdigits : ds.all (Digits.isDigit 16))
      (hnumber : Digits.number 16 ds = c.toNat) : SpellsChar c ('\\' :: 'u' :: ds)
  | eight {c : Char} {ds : List Char} (hlength : ds.length = 8)
      (hdigits : ds.all (Digits.isDigit 16)) (hnumber : Digits.number 16 ds = c.toNat) :
      SpellsChar c ('\\' :: 'U' :: ds)

inductive SpellsText : List Char → List Char → Prop where
  | nil : SpellsText [] []
  | cons {c : Char} {cs t ts : List Char} (h : SpellsChar c t) (hs : SpellsText cs ts) :
      SpellsText (c :: cs) (t ++ ts)

inductive SpellsScalar : Scalar → List Char → Prop where
  | yes : SpellsScalar (.boolean true) ['t', 'r', 'u', 'e']
  | no : SpellsScalar (.boolean false) ['f', 'a', 'l', 's', 'e']
  | integer (n : Nat) : SpellsScalar (.integer n) (Digits.decimal n)
  | string {s : String} {ts : List Char} (h : SpellsText s.toList ts) :
      SpellsScalar (.string s) ('"' :: (ts ++ ['"']))

/-! ### Strings -/

section Strings

variable {c : Char} {cs done rest t ts ds : List Char}

lemma codePoint?_of_number (hdigits : ds.all (Digits.isDigit 16))
    (hnumber : Digits.number 16 ds = c.toNat) : codePoint? ds = some c := by
  have hvalid : c.toNat.isValidChar := c.valid
  rw [codePoint?, if_pos hdigits, hnumber]
  dsimp only
  rw [if_pos hvalid, Char.ofNat_toNat]

lemma shortEscape?_of_mem {l : Char} (h : (l, c) ∈ letters) :
    shortEscape? l = some c ∧ l ≠ 'u' ∧ l ≠ 'U' := by
  simp only [letters, List.mem_cons, Prod.mk.injEq, List.not_mem_nil, or_false] at h
  rcases h with ⟨rfl, rfl⟩ | ⟨rfl, rfl⟩ | ⟨rfl, rfl⟩ | ⟨rfl, rfl⟩ | ⟨rfl, rfl⟩ | ⟨rfl, rfl⟩ |
    ⟨rfl, rfl⟩ <;> decide

lemma escaped?_letter {l : Char} (h : (l, c) ∈ letters) : escaped? (l :: cs) = some (c, cs) := by
  obtain ⟨hshort, hu, hU⟩ := shortEscape?_of_mem h
  unfold escaped?
  split
  · next heq => exact absurd (List.cons.inj heq).1 hu
  · next heq => exact absurd (List.cons.inj heq).1 hU
  · next heq =>
    cases heq
    rw [hshort]
    rfl
  · next heq => cases heq

lemma escaped?_four (hlength : ds.length = 4) (hdigits : ds.all (Digits.isDigit 16))
    (hnumber : Digits.number 16 ds = c.toNat) : escaped? ('u' :: (ds ++ cs)) = some (c, cs) := by
  obtain ⟨a, b, d, e, rfl⟩ := List.length_eq_four.1 hlength
  have hpoint := codePoint?_of_number hdigits hnumber
  simp [escaped?, hpoint]

lemma escaped?_eight (hlength : ds.length = 8) (hdigits : ds.all (Digits.isDigit 16))
    (hnumber : Digits.number 16 ds = c.toNat) : escaped? ('U' :: (ds ++ cs)) = some (c, cs) := by
  have hpoint := codePoint?_of_number hdigits hnumber
  match ds, hlength with
  | [_, _, _, _, _, _, _, _], _ => simp [escaped?, hpoint]

lemma basicFrom_escape (h : escaped? t = some (c, cs)) :
    basicFrom done ('\\' :: t) = basicFrom (c :: done) cs := by
  rw [basicFrom]
  split
  · next hnone => simp [h] at hnone
  · next c' rest' hsome =>
    rw [h] at hsome
    cases hsome
    rfl

lemma basicFrom_char (h : SpellsChar c t) : basicFrom done (t ++ cs) = basicFrom (c :: done) cs := by
  cases h with
  | plain htext => simp [basicFrom, htext]
  | letter h => exact basicFrom_escape (escaped?_letter h)
  | four hlength hdigits hnumber => exact basicFrom_escape (escaped?_four hlength hdigits hnumber)
  | eight hlength hdigits hnumber => exact basicFrom_escape (escaped?_eight hlength hdigits hnumber)

lemma basicFrom_text (h : SpellsText cs ts) :
    basicFrom done (ts ++ '"' :: rest) = some (done.reverse ++ cs, rest) := by
  induction h generalizing done with
  | nil =>
    rw [List.nil_append, basicFrom, List.append_nil]
  | cons h _ ih =>
    rw [List.append_assoc, basicFrom_char h, ih, List.reverse_cons, List.append_assoc]
    rfl

/-- No string begins with a quote, so two quotes are an empty string if no third one follows. -/
lemma SpellsText.head?_ne (h : SpellsText cs ts) : ts.head? ≠ some '"' := by
  cases h with
  | nil => nofun
  | cons h =>
    cases h with
    | plain _ hquote => simpa using hquote
    | letter => simp
    | four => simp
    | eight => simp

lemma string?_of_text (h : SpellsText cs ts) (hrest : rest.head? ≠ some '"') :
    Toml.string? ('"' :: (ts ++ '"' :: rest)) = some (cs, rest) := by
  have hbasic : lineString? ('"' :: (ts ++ '"' :: rest)) = some (cs, rest) := by
    rw [lineString?, basicFrom_text h]
    rfl
  unfold Toml.string?
  split
  · next cs' heq =>
    have htail := List.tail_eq_of_cons_eq heq
    cases ts with
    | nil =>
      rw [List.nil_append] at htail
      rw [List.tail_eq_of_cons_eq htail] at hrest
      exact absurd rfl hrest
    | cons c ts =>
      rw [List.cons_append, List.cons.injEq] at htail
      exact absurd (by rw [htail.1]; rfl) h.head?_ne
  · next heq => cases heq
  · exact hbasic

end Strings

/-! ### Numbers -/

section Numbers

variable {c m : Char} {cs ds done rest : List Char} {n width least greatest : Nat}

lemma Stops.ne (h : Stops (c :: cs)) (hm : m ∉ stops) : c ≠ m := by
  rintro rfl
  exact hm (h c rfl)

lemma Stops.not_digit (h : Stops (c :: cs)) : Digits.isDigit 10 c = false := by
  have hstops : stops.all fun c => !Digits.isDigit 10 c := by decide
  simpa using List.all_eq_true.1 hstops c (h c rfl)

/-- A number of fixed width ends before a rest that starts with no digit. -/
lemma field?_within {r : Nat × List Char}
    (hrest : ∀ c, rest.head? = some c → Digits.isDigit 10 c = false)
    (h : field? width least greatest (cs ++ rest) = some r) :
    ∃ cs', r.2 = cs' ++ rest ∧ ∃ ds, cs = ds ++ cs' ∧ ds.length = width := by
  rw [field?] at h
  obtain ⟨hcond, hr⟩ := Option.ite_none_right_eq_some.1 h
  cases hr
  simp only [Bool.and_eq_true, decide_eq_true_eq, List.all_eq_true] at hcond
  obtain ⟨⟨⟨hlength, hall⟩, -⟩, -⟩ := hcond
  have hwidth : width ≤ cs.length := by
    by_contra hlong
    rw [List.take_append, List.take_of_length_le (by omega)] at hall hlength
    cases hstart : rest with
    | nil => simp [hstart] at hlength; omega
    | cons c stop =>
      obtain ⟨k, hk⟩ := Nat.exists_eq_succ_of_ne_zero (n := width - cs.length) (by omega)
      rw [hstart, hk, List.take_succ_cons] at hall
      have hc := hall c (by simp)
      rw [hrest c (by rw [hstart]; rfl)] at hc
      cases hc
  refine ⟨cs.drop width, List.drop_append_of_le_length hwidth, cs.take width, ?_, ?_⟩
  · exact (List.take_append_drop width cs).symm
  · rw [List.length_take, Nat.min_eq_left hwidth]

lemma literal?_eq_none (hcs : m ∉ cs) (hrest : rest.head? ≠ some m) :
    Reader.literal? [m] (cs ++ rest) = none := by
  cases htext : cs ++ rest with
  | nil => rfl
  | cons c stop =>
    have hc : m ≠ c := by
      rintro rfl
      cases cs with
      | nil =>
        rw [List.nil_append] at htext
        exact hrest (by rw [htext]; rfl)
      | cons d cs =>
        rw [List.cons_append, List.cons.injEq] at htext
        exact hcs (htext.1 ▸ List.mem_cons_self)
    rw [Reader.literal?, if_neg hc]

/-- A text with no mark of a date or time behind its first character begins none. -/
lemma moment?_eq_none (hdash : '-' ∉ cs.tail) (hcolon : ':' ∉ cs.tail)
    (hrest : ∀ c, rest.head? = some c → Digits.isDigit 10 c = false ∧ c ≠ '-' ∧ c ≠ ':') :
    moment? (cs ++ rest) = none := by
  have hdigit : ∀ c, rest.head? = some c → Digits.isDigit 10 c = false := fun c hc => (hrest c hc).1
  have htail : ∀ {ds cs' : List Char} {k : Nat}, cs = ds ++ cs' → ds.length = k + 1 →
      ∀ c ∈ cs', c ∈ cs.tail := by
    intro ds cs' k hcs hlength c hc
    obtain ⟨d, ds, rfl⟩ := List.exists_cons_of_length_eq_add_one hlength
    rw [hcs]
    exact List.mem_append_right ds hc
  have hdate : date? (cs ++ rest) = none := by
    cases hyear : field? 4 0 9999 (cs ++ rest) with
    | none => simp [date?, hyear]
    | some r =>
      obtain ⟨cs', hr, ds, hcs, hlength⟩ := field?_within hdigit hyear
      have hmark : Reader.literal? ['-'] r.2 = none := by
        rw [hr]
        exact literal?_eq_none (fun hmem => hdash (htail hcs hlength _ hmem))
          fun hhead => (hrest _ hhead).2.1 rfl
      simp [date?, hyear, hmark]
  have htime : time? (cs ++ rest) = none := by
    cases hhour : field? 2 0 23 (cs ++ rest) with
    | none => simp [time?, hhour]
    | some r =>
      obtain ⟨cs', hr, ds, hcs, hlength⟩ := field?_within hdigit hhour
      have hmark : Reader.literal? [':'] r.2 = none := by
        rw [hr]
        exact literal?_eq_none (fun hmem => hcolon (htail hcs hlength _ hmem))
          fun hhead => (hrest _ hhead).2.2 rfl
      simp [time?, hhour, hmark]
  rw [moment?, hdate]
  exact htime

lemma moment?_digits (hds : ∀ c ∈ ds, Digits.isDigit 10 c) (hrest : Stops rest) :
    moment? (ds ++ rest) = none := by
  have hmark : ∀ m, Digits.isDigit 10 m = false → m ∉ ds.tail := by
    intro m hm hmem
    rw [hds m (List.mem_of_mem_tail hmem)] at hm
    cases hm
  refine moment?_eq_none (hmark _ (by decide)) (hmark _ (by decide)) fun c hc => ?_
  have hstops : ∀ c ∈ stops, Digits.isDigit 10 c = false ∧ c ≠ '-' ∧ c ≠ ':' :=
    List.all_iff_forall_prop.1 (by decide)
  exact hstops c (hrest c hc)

lemma digitsFrom_digits (hds : ∀ c ∈ ds, Digits.isDigit 10 c) (hrest : Stops rest) :
    digitsFrom 10 done (ds ++ rest) = (done.reverse ++ ds, rest) := by
  induction ds generalizing done with
  | nil =>
    cases rest with
    | nil => simp [digitsFrom]
    | cons c cs =>
      have hunderscore : c ≠ '_' := hrest.ne (by decide)
      simp [digitsFrom, hunderscore, hrest.not_digit]
  | cons d ds ih =>
    rw [List.forall_mem_cons] at hds
    have hunderscore : d ≠ '_' := by
      rintro rfl
      cases hds.1
    rw [List.cons_append]
    simp [digitsFrom, hunderscore, hds.1, ih hds.2]

lemma isDigit_decimal (hc : c ∈ Digits.decimal n) : Digits.isDigit 10 c :=
  isDigit_ten_of_isDigit (isDigit_of_mem_decimal hc)

lemma wholeDigits?_decimal (hrest : Stops rest) :
    wholeDigits? (Digits.decimal n ++ rest) = some (Digits.decimal n, rest) := by
  obtain ⟨d, ds, hds⟩ := List.exists_cons_of_ne_nil (decimal_ne_nil n)
  by_cases hd : d = '0'
  · have hn : n = 0 := eq_zero_of_decimal (by rw [hds, hd]; rfl)
    rw [hn]
    rfl
  · have hall : ∀ c ∈ d :: ds, Digits.isDigit 10 c := by
      rw [← hds]
      exact fun c hc => isDigit_decimal hc
    rw [List.forall_mem_cons] at hall
    rw [hds, List.cons_append]
    simp [wholeDigits?, hd, digits?, hall.1, digitsFrom_digits hall.2 hrest]

lemma head_of_decimal (h : Digits.decimal n ++ rest = m :: cs) : Digits.isDigit 10 m := by
  obtain ⟨d, ds, hdecimal⟩ := List.exists_cons_of_ne_nil (decimal_ne_nil n)
  have hd : d ∈ Digits.decimal n := by
    rw [hdecimal]
    exact List.mem_cons_self
  rw [hdecimal, List.cons_append, List.cons.injEq] at h
  rw [← h.1]
  exact isDigit_decimal hd

/-- After the first digit there are digits, and then the value ends. -/
lemma second_of_decimal (hrest : Stops rest) (h : Digits.decimal n ++ rest = m :: c :: cs) :
    Digits.isDigit 10 c ∨ c ∈ stops := by
  obtain ⟨d, ds, hdecimal⟩ := List.exists_cons_of_ne_nil (decimal_ne_nil n)
  have hds : ∀ c ∈ d :: ds, Digits.isDigit 10 c := by
    rw [← hdecimal]
    exact fun c hc => isDigit_decimal hc
  rw [hdecimal, List.cons_append, List.cons.injEq] at h
  cases ds with
  | nil => exact .inr (hrest c (by rw [← List.nil_append rest, h.2]; rfl))
  | cons d' ds =>
    rw [List.cons_append, List.cons.injEq] at h
    rw [← h.2.1]
    exact .inl (hds d' (by simp))

lemma unsigned?_decimal (hn : n < 9223372036854775808) (hrest : Stops rest) :
    unsigned? false (Digits.decimal n ++ rest) = some (.integer n, rest) := by
  have hgoesOn : goesOn rest = false := by
    cases rest with
    | nil => rfl
    | cons c cs =>
      have hstops : ∀ c ∈ stops, goesOn (c :: cs) = false := by simp [goesOn, stops]
      exact hstops c (hrest c rfl)
  have hbelow : Digits.below? 10 (UInt64.size / 2) (Digits.decimal n) = some n :=
    below?_decimal hn
  rw [unsigned?, wholeDigits?_decimal hrest]
  simp only [Option.bind_eq_bind, Option.bind_some, hgoesOn, integer?, hbelow]
  rfl

lemma number?_decimal (hn : n < 9223372036854775808) (hrest : Stops rest) :
    number? (Digits.decimal n ++ rest) = some (.integer n, rest) := by
  have hsign : sign (Digits.decimal n ++ rest) = (false, Digits.decimal n ++ rest) := by
    unfold sign
    split
    · next heq => exact absurd (head_of_decimal heq) (by decide)
    · next heq => exact absurd (head_of_decimal heq) (by decide)
    · rfl
  have hsecond : ∀ {m c cs}, Digits.decimal n ++ rest = m :: c :: cs → _ := second_of_decimal hrest
  unfold number?
  split
  · next heq => exact absurd (hsecond heq) (by decide)
  · next heq => exact absurd (hsecond heq) (by decide)
  · next heq => exact absurd (hsecond heq) (by decide)
  · rw [hsign]
    dsimp only
    split
    · next heq => exact absurd (head_of_decimal heq) (by decide)
    · next heq => exact absurd (head_of_decimal heq) (by decide)
    · exact unsigned?_decimal hn hrest

/-! ### Scalars -/

/-- Integers that a document can hold. -/
def Storable (s : Scalar) : Prop := ∀ n : Nat, s = .integer n → n < 9223372036854775808

lemma scalar?_of_spells {s : Scalar} {t : List Char} (h : SpellsScalar s t) (hfits : Storable s)
    (hrest : Stops rest) : scalar? (t ++ rest) = some (s, rest) := by
  cases h with
  | yes => rfl
  | no => rfl
  | integer n =>
    have hmoment := moment?_digits (fun c hc => isDigit_decimal (n := n) hc) hrest
    have hnumber := number?_decimal (hfits n rfl) hrest
    unfold scalar?
    split
    · next heq => exact absurd (head_of_decimal heq) (by decide)
    · next heq => exact absurd (head_of_decimal heq) (by decide)
    · next heq => exact absurd (head_of_decimal heq) (by decide)
    · next heq => exact absurd (head_of_decimal heq) (by decide)
    · rw [hmoment, hnumber]
      rfl
  | @string s ts h =>
    have hquote : rest.head? ≠ some '"' := by
      intro hq
      exact absurd (hrest _ hq) (by decide)
    have hstring := string?_of_text h hquote
    rw [List.cons_append, List.append_assoc]
    simp only [List.cons_append, List.nil_append, scalar?]
    rw [hstring]
    simp

end Numbers

/-! ### Every scalar has a spelling -/

section Existence

lemma spellsText_plain {cs : List Char} (h : cs.all fun c => isText c && c ≠ '"' && c ≠ '\\') :
    SpellsText cs cs := by
  induction cs with
  | nil => exact .nil
  | cons c cs ih =>
    simp only [List.all_cons, Bool.and_eq_true, decide_eq_true_eq] at h
    obtain ⟨⟨⟨htext, hquote⟩, hslash⟩, hcs⟩ := h
    exact .cons (.plain htext hquote hslash) (ih (by simpa using hcs))

/-- A character that cannot stand as it is has a number of two digits. -/
lemma exists_spellsChar (c : Char) : ∃ t, SpellsChar c t := by
  by_cases hquote : c = '"'
  · exact ⟨_, .letter (l := '"') (by simp [hquote, letters])⟩
  by_cases hslash : c = '\\'
  · exact ⟨_, .letter (l := '\\') (by simp [hslash, letters])⟩
  by_cases htext : isText c
  · exact ⟨_, .plain htext hquote hslash⟩
  have hsmall : c.toNat < 128 := by
    simp only [isText, Bool.or_eq_true, decide_eq_true_eq, Bool.and_eq_true, not_or, not_and]
      at htext
    omega
  have hdigits : ∀ n < 128,
      let ds := ['0', '0', Nat.digitChar (n / 16), Nat.digitChar (n % 16)]
      ds.all (Digits.isDigit 16) ∧ Digits.number 16 ds = n := by
    decide
  exact ⟨_, .four rfl (hdigits _ hsmall).1 (hdigits _ hsmall).2⟩

lemma exists_spellsText (cs : List Char) : ∃ ts, SpellsText cs ts := by
  induction cs with
  | nil => exact ⟨[], .nil⟩
  | cons c cs ih =>
    obtain ⟨t, ht⟩ := exists_spellsChar c
    obtain ⟨ts, hts⟩ := ih
    exact ⟨t ++ ts, .cons ht hts⟩

lemma exists_spellsString (s : String) : ∃ t, SpellsScalar (.string s) t := by
  obtain ⟨ts, hts⟩ := exists_spellsText s.toList
  exact ⟨_, .string hts⟩

lemma exists_spellsBoolean (b : Bool) : ∃ t, SpellsScalar (.boolean b) t := by
  cases b
  · exact ⟨_, .no⟩
  · exact ⟨_, .yes⟩

end Existence

end MemberRelay.Proofs
