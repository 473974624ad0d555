import Mathlib.Data.Nat.Digits.Defs
import MemberRelay.Proofs.Toml.Bounded
import MemberRelay.Proofs.Toml.Proper

/-!
# Numerals

Digits of four bases with underscores between them, the numbers that they stand for, and the integers
that are spelled with them. The readers of digits and of numbers take just what is spelled so.
-/

namespace MemberRelay.Proofs
open Toml

def lowerDigits : List Char :=
  ['0', '1', '2', '3', '4', '5', '6', '7', '8', '9', 'a', 'b', 'c', 'd', 'e', 'f']

def upperDigits : List Char :=
  ['0', '1', '2', '3', '4', '5', '6', '7', '8', '9', 'A', 'B', 'C', 'D', 'E', 'F']

/-- The value of a digit in either case. No other character has one below sixteen. -/
def digitValue (c : Char) : Nat := min (lowerDigits.idxOf c) (upperDigits.idxOf c)

/-- The number of which these are the digits, the last one for the ones. -/
def placeValue (base : Nat) (ds : List Char) : Nat := Nat.ofDigits base (ds.map digitValue).reverse

/-- Digits of a base, with single underscores between them, and the digits alone. -/
inductive SpellsDigits (base : Nat) : List Char → List Char → Prop where
  | one {d : Char} (h : digitValue d < base) : SpellsDigits base [d] [d]
  | next {d : Char} {text ds : List Char} (h : digitValue d < base)
      (hnext : SpellsDigits base text ds) : SpellsDigits base (d :: text) (d :: ds)
  | spaced {d : Char} {text ds : List Char} (h : digitValue d < base)
      (hnext : SpellsDigits base text ds) : SpellsDigits base (d :: '_' :: text) (d :: ds)

/-- A sign or none, and whether it is a minus. -/
def signs : List (List Char × Bool) := [([], false), (['+'], false), (['-'], true)]

/-- The letters of the bases other than ten. -/
def baseLetters : List (Char × Nat) := [('x', 16), ('o', 8), ('b', 2)]

def signed (negative : Bool) (n : Nat) : Int := if negative then -n else n

/-- A decimal integer may have a sign and has no zero in front of other digits; one of another base
has no sign. -/
inductive SpellsLiteral : List Char → Int → Prop where
  | decimal {sign text ds : List Char} {negative : Bool} (hsign : (sign, negative) ∈ signs)
      (h : SpellsDigits 10 text ds) (hzero : ds.head? = some '0' → ds = ['0']) :
      SpellsLiteral (sign ++ text) (signed negative (placeValue 10 ds))
  | based {letter : Char} {base : Nat} {text ds : List Char} (hbase : (letter, base) ∈ baseLetters)
      (h : SpellsDigits base text ds) :
      SpellsLiteral ('0' :: letter :: text) (placeValue base ds)

/-- Digits of a base and underscores in any order. -/
def Jumbled (base : Nat) (body : List Char) : Prop := ∀ c ∈ body, digitValue c < base ∨ c = '_'

/-- The characters that follow a value: blanks and what ends one. -/
def enders : List Char := ' ' :: '\t' :: borders

instance : DecidablePred FitsInt64 := fun _ => inferInstanceAs (Decidable (_ ∧ _))

/-! ### Values of digits -/

section Values

variable {base : Nat} {c : Char} {ds : List Char}

lemma digitValue_of_notMem (h : c ∉ lowerDigits ++ upperDigits) : digitValue c = 16 := by
  rw [List.mem_append, not_or] at h
  rw [digitValue, List.idxOf_of_notMem h.1, List.idxOf_of_notMem h.2]
  rfl

lemma mem_of_digitValue (h : digitValue c < 16) : c ∈ lowerDigits ++ upperDigits := by
  by_contra hc
  exact absurd h (by rw [digitValue_of_notMem hc]; decide)

lemma mem_of_value? (h : Digits.value? c ≠ none) : c ∈ lowerDigits ++ upperDigits := by
  have hsmall : ∀ n < 103, Digits.value? (Char.ofNat n) ≠ none →
      Char.ofNat n ∈ lowerDigits ++ upperDigits := by decide
  have hle : ∀ d e : Char, d ≤ e ↔ d.toNat ≤ e.toNat := fun d e => UInt32.le_iff_toNat_le
  have hlt : c.toNat < 103 := by
    by_contra hlarge
    refine h ?_
    simp only [Digits.value?, hle, Char.reduceToNat]
    rw [if_neg (by omega), if_neg (by omega), if_neg (by omega)]
  have hmem := hsmall c.toNat hlt
  rw [Char.ofNat_toNat] at hmem
  exact hmem h

lemma value?_eq (c : Char) :
    Digits.value? c = if digitValue c < 16 then some (digitValue c) else none := by
  by_cases hc : c ∈ lowerDigits ++ upperDigits
  · have hall : ∀ c ∈ lowerDigits ++ upperDigits,
        Digits.value? c = if digitValue c < 16 then some (digitValue c) else none :=
      List.all_iff_forall_prop.1 (by decide)
    exact hall c hc
  · have hnone : Digits.value? c = none := by
      by_contra hsome
      exact hc (mem_of_value? hsome)
    rw [hnone, digitValue_of_notMem hc]
    rfl

lemma isDigit_iff (hbase : base ≤ 16) : Digits.isDigit base c ↔ digitValue c < base := by
  rw [Digits.isDigit, value?_eq]
  by_cases hc : digitValue c < 16
  · simp [hc]
  · simp only [hc, if_false, Bool.false_eq_true, false_iff]
    omega

/-- Adding up the digits from the left gives the number that they stand for by their places. -/
lemma number_eq (hbase : base ≤ 16) (hds : ∀ d ∈ ds, digitValue d < base) :
    Digits.number base ds = placeValue base ds := by
  have hfrom : ∀ n, ds.foldl (Digits.push base) n = n * base ^ ds.length + placeValue base ds := by
    induction ds with
    | nil => simp [placeValue]
    | cons d ds ih =>
      intro n
      rw [List.forall_mem_cons] at hds
      have hvalue : (Digits.value? d).getD 0 = digitValue d := by
        rw [value?_eq, if_pos (Nat.lt_of_lt_of_le hds.1 hbase)]
        rfl
      rw [List.foldl_cons, ih hds.2, Digits.push, hvalue]
      simp only [placeValue, List.map_cons, Nat.ofDigits_reverse_cons, List.length_map,
        List.length_cons]
      ring
  rw [Digits.number, hfrom, Nat.zero_mul, Nat.zero_add]

end Values

/-! ### What follows a value -/

section Ends

variable {c : Char} {cs lit text after rest : List Char}

lemma digitValue_ender (h : c ∈ enders) : digitValue c = 16 := by
  have hall : ∀ c ∈ enders, digitValue c = 16 :=
    List.all_iff_forall_prop.1 (by decide)
  exact hall c h

lemma ended_cons (h : c ∉ enders) : ¬Ended (c :: cs) := by
  simp only [enders, List.mem_cons, not_or] at h
  have hblank : isBlank c = false := by simp [isBlank, h]
  rw [Ended, skipBlanks, List.dropWhile_cons_of_neg (by simp [hblank])]
  simpa using h.2.2

lemma Ended.head (h : Ended after) (hc : after.head? = some c) : c ∈ enders := by
  by_contra hnot
  cases after with
  | nil => cases hc
  | cons d after =>
    cases hc
    exact ended_cons hnot h

/-- A text without such characters ends before them. -/
lemma eq_append_of_ended (hafter : Ended after) (htext : ∀ c ∈ text, c ∉ enders)
    (h : lit ++ after = text ++ rest) : ∃ more, lit = text ++ more ∧ rest = more ++ after := by
  rcases List.append_eq_append_iff.1 h with ⟨front, rfl, rfl⟩ | ⟨more, rfl, rfl⟩
  · cases front with
    | nil => exact ⟨[], by simp, rfl⟩
    | cons c front =>
      exact absurd (hafter.head rfl) (htext c (by simp))
  · exact ⟨more, rfl, rfl⟩

end Ends

/-! ### Digits -/

section Digits

variable {base : Nat} {c d m : Char} {text ds body cs rest done : List Char}

lemma Jumbled.not_mem (h : Jumbled base body) (hm : base ≤ digitValue m) (hne : m ≠ '_') :
    m ∉ body := by
  intro hmem
  rcases h m hmem with hdigit | hline
  · omega
  · exact hne hline

lemma Jumbled.not_mem_enders (h : Jumbled base body) (hbase : base ≤ 16) : ∀ c ∈ body, c ∉ enders := by
  have hline : '_' ∉ enders := by decide
  intro c hc hender
  exact h.not_mem (by rwa [digitValue_ender hender]) (fun heq => hline (heq ▸ hender)) hc

lemma SpellsDigits.jumbled (h : SpellsDigits base text ds) : Jumbled base text := by
  induction h with
  | one h => exact List.forall_mem_singleton.2 (.inl h)
  | next h _ ih => exact List.forall_mem_cons.2 ⟨.inl h, ih⟩
  | spaced h _ ih => exact List.forall_mem_cons.2 ⟨.inl h, List.forall_mem_cons.2 ⟨.inr rfl, ih⟩⟩

/-- The first digit is the first character. -/
lemma SpellsDigits.head (h : SpellsDigits base text ds) :
    ∃ d text' ds', text = d :: text' ∧ ds = d :: ds' ∧ digitValue d < base := by
  cases h with
  | one h => exact ⟨_, _, _, rfl, rfl, h⟩
  | next h => exact ⟨_, _, _, rfl, rfl, h⟩
  | spaced h => exact ⟨_, _, _, rfl, rfl, h⟩

lemma SpellsDigits.eq_of_single (h : SpellsDigits base text [d]) : text = [d] := by
  have hnil : ∀ {text}, ¬SpellsDigits base text [] := by
    intro text h
    cases h
  cases h with
  | one => rfl
  | next _ h => exact absurd h hnil
  | spaced _ h => exact absurd h hnil

lemma SpellsDigits.digits (h : SpellsDigits base text ds) : ∀ d ∈ ds, digitValue d < base := by
  induction h with
  | one h => exact List.forall_mem_singleton.2 h
  | next h _ ih => exact List.forall_mem_cons.2 ⟨h, ih⟩
  | spaced h _ ih => exact List.forall_mem_cons.2 ⟨h, ih⟩

lemma digitsFrom_digit (h : Digits.isDigit base c) :
    digitsFrom base done (c :: cs) = digitsFrom base (c :: done) cs := by
  have hline : c ≠ '_' := by
    rintro rfl
    simp [Digits.isDigit, Digits.value?] at h
  simp [digitsFrom, hline, h]

lemma digitsFrom_spaced (h : Digits.isDigit base c) :
    digitsFrom base done ('_' :: c :: cs) = digitsFrom base (c :: done) cs := by
  simp [digitsFrom, h]

/-- Digits end in front of another character. -/
def NoDigit (base : Nat) (rest : List Char) : Prop :=
  ∀ c, rest.head? = some c → Digits.isDigit base c = false ∧ c ≠ '_'

lemma Ended.noDigit (h : Ended rest) (base : Nat) : NoDigit base rest := by
  have hline : '_' ∉ enders := by decide
  intro c hc
  have hvalue : Digits.value? c = none := by
    rw [value?_eq, digitValue_ender (h.head hc)]
    rfl
  exact ⟨by rw [Digits.isDigit, hvalue], fun heq => hline (heq ▸ h.head hc)⟩

lemma digitsFrom_noDigit (h : NoDigit base rest) :
    digitsFrom base done rest = (done.reverse, rest) := by
  cases rest with
  | nil => rw [digitsFrom]
  | cons c cs =>
    obtain ⟨hdigit, hline⟩ := h c rfl
    simp [digitsFrom, hdigit, hline]

/-- What spells digits is read as them. -/
lemma digits?_of_spells (hbase : base ≤ 16) (h : SpellsDigits base text ds)
    (hrest : NoDigit base rest) : digits? base (text ++ rest) = some (ds, rest) := by
  have hdigit : ∀ {d}, digitValue d < base → Digits.isDigit base d := (isDigit_iff hbase).2
  have hfrom : ∀ done, ∃ c cs, text = c :: cs ∧ Digits.isDigit base c ∧
      digitsFrom base (c :: done) (cs ++ rest) = (done.reverse ++ ds, rest) := by
    induction h with
    | @one d h => exact fun done => ⟨d, [], rfl, hdigit h, by simp [digitsFrom_noDigit hrest]⟩
    | @next d text ds h _ ih =>
      intro done
      obtain ⟨c, cs, rfl, hc, hfrom⟩ := ih (d :: done)
      exact ⟨d, c :: cs, rfl, hdigit h, by simp [digitsFrom_digit hc, hfrom]⟩
    | @spaced d text ds h _ ih =>
      intro done
      obtain ⟨c, cs, rfl, hc, hfrom⟩ := ih (d :: done)
      exact ⟨d, '_' :: c :: cs, rfl, hdigit h, by simp [digitsFrom_spaced hc, hfrom]⟩
  obtain ⟨c, cs, rfl, hc, hdigits⟩ := hfrom []
  rw [List.cons_append, digits?, if_pos hc, hdigits]
  rfl

/-- What is read as digits spells them. -/
lemma spells_of_digits? (hbase : base ≤ 16) (h : digits? base cs = some (ds, rest)) :
    ∃ text, cs = text ++ rest ∧ SpellsDigits base text ds := by
  have hvalue : ∀ {d}, Digits.isDigit base d → digitValue d < base := (isDigit_iff hbase).1
  have hfrom : ∀ done cs ds rest, digitsFrom base done cs = (ds, rest) →
      ∃ text new, cs = text ++ rest ∧ ds = done.reverse ++ new ∧
        ∀ d, digitValue d < base → SpellsDigits base (d :: text) (d :: new) := by
    intro done cs ds rest h
    fun_induction digitsFrom base done cs with
    | case1 done c cs hc ih =>
      obtain ⟨text, new, rfl, rfl, hspells⟩ := ih h
      exact ⟨'_' :: c :: text, c :: new, rfl, by simp, fun d hd => .spaced hd (hspells c (hvalue hc))⟩
    | case3 done c cs _ hc ih =>
      obtain ⟨text, new, rfl, rfl, hspells⟩ := ih h
      exact ⟨c :: text, c :: new, rfl, by simp, fun d hd => .next hd (hspells c (hvalue hc))⟩
    | _ =>
      obtain ⟨rfl, rfl⟩ := Prod.mk.inj h
      exact ⟨[], [], rfl, by simp, fun d hd => .one hd⟩
  cases cs with
  | nil => cases h
  | cons c cs =>
    rw [digits?] at h
    obtain ⟨hc, heq⟩ := Option.ite_none_right_eq_some.1 h
    obtain ⟨text, new, rfl, rfl, hspells⟩ := hfrom _ _ _ _ (Option.some.inj heq)
    exact ⟨c :: text, rfl, hspells c (hvalue hc)⟩

lemma wholeDigits?_of_spells (h : SpellsDigits 10 text ds) (hzero : ds.head? = some '0' → ds = ['0'])
    (hrest : NoDigit 10 rest) : wholeDigits? (text ++ rest) = some (ds, rest) := by
  obtain ⟨d, text', ds', rfl, rfl, hd⟩ := h.head
  by_cases hnull : d = '0'
  · subst hnull
    rw [hzero rfl] at h ⊢
    rw [h.eq_of_single]
    rfl
  · rw [← digits?_of_spells (by decide) h hrest]
    simp [wholeDigits?, hnull]

lemma spells_of_wholeDigits? (h : wholeDigits? cs = some (ds, rest)) :
    ∃ text, cs = text ++ rest ∧ SpellsDigits 10 text ds ∧ (ds.head? = some '0' → ds = ['0']) := by
  unfold wholeDigits? at h
  split at h
  · obtain ⟨rfl, rfl⟩ := Prod.mk.inj (Option.some.inj h)
    exact ⟨['0'], rfl, .one (by decide), fun _ => rfl⟩
  · next hnull =>
    obtain ⟨text, rfl, hspells⟩ := spells_of_digits? (by decide) h
    refine ⟨text, rfl, hspells, fun hzero => ?_⟩
    obtain ⟨d, text', ds', rfl, rfl, -⟩ := hspells.head
    cases hzero
    exact absurd rfl (hnull _)

end Digits

/-! ### Numbers -/

section Numbers

variable {base : Nat} {negative : Bool} {letter : Char} {x : Number}
  {sgn text ds cs after rest : List Char}

lemma integer?_eq (hlow : 1 ≤ base) (hhigh : base ≤ 16) (hds : ∀ d ∈ ds, digitValue d < base) :
    integer? negative base ds rest = if FitsInt64 (signed negative (placeValue base ds)) then
      some (.integer (signed negative (placeValue base ds)), rest) else none := by
  have hsize : UInt64.size / 2 = 9223372036854775808 := rfl
  rw [← number_eq hhigh hds]
  cases negative with
  | false =>
    have hfits : FitsInt64 (signed false (Digits.number base ds)) ↔
        Digits.number base ds < UInt64.size / 2 := by
      simp only [FitsInt64, signed, Bool.false_eq_true, if_false]
      omega
    rw [integer?, if_neg (by decide), Digits.below?_eq hlow (by omega)]
    simp only [hfits]
    split <;> rfl
  | true =>
    have hfits : FitsInt64 (signed true (Digits.number base ds)) ↔
        Digits.number base ds < UInt64.size / 2 + 1 := by
      simp only [FitsInt64, signed, if_true]
      omega
    rw [integer?, if_pos rfl, Digits.below?_eq hlow (by omega)]
    simp only [hfits]
    split <;> rfl

lemma bounds_of_mem_baseLetters (h : (letter, base) ∈ baseLetters) : 1 ≤ base ∧ base ≤ 16 := by
  have hall : ∀ p ∈ baseLetters, 1 ≤ p.2 ∧ p.2 ≤ 16 := by decide
  exact hall _ h

lemma number?_based (h : (letter, base) ∈ baseLetters) :
    number? ('0' :: letter :: cs) = prefixed? base cs := by
  simp only [baseLetters, List.mem_cons, Prod.mk.injEq, List.not_mem_nil, or_false] at h
  rcases h with ⟨rfl, rfl⟩ | ⟨rfl, rfl⟩ | ⟨rfl, rfl⟩ <;> rfl

lemma sign_cases (h : (sgn, negative) ∈ signs) : (sgn = [] ∧ negative = false) ∨
    (sgn = ['+'] ∧ negative = false) ∨ (sgn = ['-'] ∧ negative = true) := by
  simpa [signs] using h

lemma sign_signs (h : (sgn, negative) ∈ signs) (hplus : cs.head? ≠ some '+')
    (hminus : cs.head? ≠ some '-') : sign (sgn ++ cs) = (negative, cs) := by
  rcases sign_cases h with ⟨rfl, rfl⟩ | ⟨rfl, rfl⟩ | ⟨rfl, rfl⟩
  · rw [List.nil_append]
    unfold sign
    split
    · exact absurd rfl hminus
    · exact absurd rfl hplus
    · rfl
  · rfl
  · rfl

/-- The number after a sign, where no base is named. -/
lemma number?_decimal_signed (h : (sgn, negative) ∈ signs)
    (hhead : ∀ c ∈ ['+', '-', 'i', 'n'], cs.head? ≠ some c)
    (hbase : sgn = [] → ∀ p ∈ baseLetters, ¬['0', p.1] <+: cs) :
    number? (sgn ++ cs) = unsigned? negative cs := by
  have hsign := sign_signs h (hhead '+' (by decide)) (hhead '-' (by decide))
  have hnamed : ∀ p ∈ baseLetters, ¬['0', p.1] <+: sgn ++ cs := by
    intro p hp hnamed
    rcases sign_cases h with ⟨rfl, -⟩ | ⟨rfl, -⟩ | ⟨rfl, -⟩
    · exact hbase rfl p hp hnamed
    · simp at hnamed
    · simp at hnamed
  have hletters : ∀ c ∈ ['i', 'n'], c ∈ ['+', '-', 'i', 'n'] :=
    List.all_iff_forall_prop.1 (by decide)
  have hword : ∀ c ∈ ['i', 'n'], ∀ word, ¬(c :: word) <+: cs := by
    rintro c hc word ⟨stop, rfl⟩
    exact hhead c (hletters c hc) rfl
  rw [number?_eq, hsign, if_neg (hnamed ('x', 16) (by decide)), if_neg (hnamed ('o', 8) (by decide)),
    if_neg (hnamed ('b', 2) (by decide)), if_neg (hword 'i' (by decide) _),
    if_neg (hword 'n' (by decide) _)]

lemma spells_of_prefixed? (hlow : 1 ≤ base) (hhigh : base ≤ 16)
    (h : prefixed? base cs = some (x, rest)) :
    ∃ text ds, cs = text ++ rest ∧ SpellsDigits base text ds ∧
      x = .integer (placeValue base ds) := by
  obtain ⟨⟨ds, stop⟩, hdigits, hnumber⟩ := Option.bind_eq_some_iff.1 h
  obtain ⟨text, rfl, hspells⟩ := spells_of_digits? hhigh hdigits
  dsimp only at hnumber
  rw [integer?_eq hlow hhigh hspells.digits] at hnumber
  obtain ⟨-, heq⟩ := Option.ite_none_right_eq_some.1 hnumber
  obtain ⟨rfl, rfl⟩ := Prod.mk.inj (Option.some.inj heq)
  exact ⟨text, ds, rfl, hspells, rfl⟩

lemma spells_of_unsigned? (h : unsigned? negative cs = some (x, rest)) :
    ∃ text ds stop, cs = text ++ stop ∧ SpellsDigits 10 text ds ∧
      (ds.head? = some '0' → ds = ['0']) ∧ (goesOn stop = false →
        rest = stop ∧ x = .integer (signed negative (placeValue 10 ds))) := by
  obtain ⟨⟨ds, stop⟩, hdigits, hnumber⟩ := Option.bind_eq_some_iff.1 h
  obtain ⟨text, rfl, hspells, hzero⟩ := spells_of_wholeDigits? hdigits
  refine ⟨text, ds, stop, rfl, hspells, hzero, fun hgoes => ?_⟩
  dsimp only at hnumber
  rw [hgoes, if_neg (by decide), integer?_eq (by decide) (by decide) hspells.digits] at hnumber
  obtain ⟨-, heq⟩ := Option.ite_none_right_eq_some.1 hnumber
  obtain ⟨rfl, rfl⟩ := Prod.mk.inj (Option.some.inj heq)
  exact ⟨rfl, rfl⟩

end Numbers

end MemberRelay.Proofs
