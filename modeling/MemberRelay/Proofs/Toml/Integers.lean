import MemberRelay.Proofs.Toml.Exchanged
import MemberRelay.Proofs.Toml.Numerals

/-!
# Integers in a document

Where a value ends behind the text of an integer, the text is read as the integer, if that fits 64 bits
with a sign, and is no value else. A text that goes wrong in its underscores, in the zeros or the sign
in front, or for want of digits is no value either.
-/

namespace MemberRelay.Proofs
open Toml

/-- A text that is an integer but for its underscores, which may stand anywhere, for its digits, which
may be none or start with zeros, and for a sign in front of the letter of a base. -/
inductive ResemblesLiteral (lit : List Char) : Prop where
  | decimal {sign ds : List Char} {negative : Bool} (hsign : (sign, negative) ∈ signs)
      (hdigits : ∀ d ∈ ds, digitValue d < 10) (h : lit.filter (· ≠ '_') = sign ++ ds)
  | based {sign ds : List Char} {negative : Bool} {letter : Char} {base : Nat}
      (hsign : (sign, negative) ∈ signs) (hbase : (letter, base) ∈ baseLetters)
      (hdigits : ∀ d ∈ ds, digitValue d < base)
      (h : lit.filter (· ≠ '_') = sign ++ '0' :: letter :: ds)

/-- What stands behind the sign of such a text. -/
inductive Unsigned : List Char → Prop where
  | decimal {body : List Char} (hbody : Jumbled 10 body) : Unsigned body
  | based {gap gap' body : List Char} {letter : Char} {base : Nat}
      (hbase : (letter, base) ∈ baseLetters) (hgap : ∀ c ∈ gap, c = '_')
      (hgap' : ∀ c ∈ gap', c = '_') (hbody : Jumbled base body) :
      Unsigned (gap ++ '0' :: (gap' ++ letter :: body))

/-- The characters that an integer may have behind its sign. -/
def IsInner (c : Char) : Prop := digitValue c < 16 ∨ c ∈ ['_', 'x', 'o']

instance : DecidablePred IsInner := fun _ => inferInstanceAs (Decidable (_ ∨ _))

/-! ### Literals -/

section Literals

variable {base : Nat} {negative : Bool} {letter c m : Char} {n : Int} {x : Number} {s : Scalar}
  {lit sgn text ds cs gap gap' body tail after rest : List Char}

/-- Without its underscores, a text of digits is the digits. -/
lemma SpellsDigits.filter_eq (h : SpellsDigits base text ds) (hbase : base ≤ 16) :
    text.filter (· ≠ '_') = ds := by
  have hline : ∀ d, digitValue d < base → d ≠ '_' := by
    rintro d hd rfl
    have hvalue : digitValue '_' = 16 := by decide
    omega
  induction h with
  | one h => simp [hline _ h]
  | next h _ ih => simpa [hline _ h] using ih
  | spaced h _ ih => simpa [hline _ h] using ih

lemma SpellsLiteral.resembles (h : SpellsLiteral lit n) : ResemblesLiteral lit := by
  have hkept : ∀ p ∈ signs, p.1.filter (· ≠ '_') = p.1 := by decide
  cases h with
  | decimal hsign h =>
    refine .decimal hsign h.digits ?_
    rw [List.filter_append, h.filter_eq (by decide), hkept _ hsign]
  | @based letter base text ds hbase h =>
    have hnone : ([], false) ∈ signs := by decide
    have hletter : ∀ p ∈ baseLetters, p.1 ≠ '_' := by decide
    refine .based hnone hbase h.digits ?_
    have hfilter := h.filter_eq (bounds_of_mem_baseLetters hbase).2
    simpa [hletter _ hbase] using hfilter

lemma SpellsLiteral.unsigned (h : SpellsLiteral lit n) : ∃ sgn negative body,
    (sgn, negative) ∈ signs ∧ lit = sgn ++ body ∧ Unsigned body := by
  cases h with
  | decimal hsign h => exact ⟨_, _, _, hsign, rfl, .decimal h.jumbled⟩
  | based hbase h =>
    have hnone : ∀ c ∈ ([] : List Char), c = '_' := nofun
    exact ⟨[], false, _, by decide, rfl, .based hbase hnone hnone h.jumbled⟩

lemma SpellsLiteral.ne_nil (h : SpellsLiteral lit n) : lit ≠ [] := by
  cases h with
  | decimal _ h =>
    obtain ⟨d, text', ds', rfl, -⟩ := h.head
    simp
  | based => simp

lemma jumbled_of_filter (h : body.filter (· ≠ '_') = ds) (hds : ∀ d ∈ ds, digitValue d < base) :
    Jumbled base body := by
  intro c hc
  by_cases hline : c = '_'
  · exact .inr hline
  · refine .inl (hds c ?_)
    rw [← h]
    exact List.mem_filter.2 ⟨hc, decide_eq_true hline⟩

lemma exists_gap (h : body.filter (· ≠ '_') = c :: tail) :
    ∃ gap rest, body = gap ++ c :: rest ∧ (∀ d ∈ gap, d = '_') ∧ rest.filter (· ≠ '_') = tail := by
  obtain ⟨gap, rest, rfl, hgap, -, hrest⟩ := List.filter_eq_cons_iff.1 h
  exact ⟨gap, rest, rfl, fun d hd => by simpa using hgap d hd, hrest⟩

/-- The sign stands in front, or else an underscore does. -/
lemma exists_body (hsign : (sgn, negative) ∈ signs) (h : lit.filter (· ≠ '_') = sgn ++ tail) :
    (∃ cs, lit = '_' :: cs) ∨ ∃ body, lit = sgn ++ body ∧ body.filter (· ≠ '_') = tail := by
  by_cases hline : lit.head? = some '_'
  · exact .inl (List.head?_eq_some_iff.1 hline)
  · refine .inr ?_
    have hfirst : ∀ {c}, lit.filter (· ≠ '_') = c :: tail →
        ∃ body, lit = [c] ++ body ∧ body.filter (· ≠ '_') = tail := by
      intro c hc
      obtain ⟨gap, body, rfl, hgap, hbody⟩ := exists_gap hc
      cases gap with
      | nil => exact ⟨body, rfl, hbody⟩
      | cons d gap => exact absurd (congrArg some (hgap d (by simp))) hline
    rcases sign_cases hsign with ⟨rfl, -⟩ | ⟨rfl, -⟩ | ⟨rfl, -⟩
    · exact ⟨lit, rfl, h⟩
    · exact hfirst h
    · exact hfirst h

lemma ResemblesLiteral.unsigned (h : ResemblesLiteral lit) : (∃ cs, lit = '_' :: cs) ∨
    ∃ sgn negative body, (sgn, negative) ∈ signs ∧ lit = sgn ++ body ∧ Unsigned body := by
  cases h with
  | decimal hsign hdigits h =>
    refine (exists_body hsign h).imp_right fun ⟨body, hlit, hbody⟩ => ?_
    exact ⟨_, _, body, hsign, hlit, .decimal (jumbled_of_filter hbody hdigits)⟩
  | based hsign hbase hdigits h =>
    refine (exists_body hsign h).imp_right fun ⟨body, hlit, hbody⟩ => ?_
    obtain ⟨gap, rest, rfl, hgap, hrest⟩ := exists_gap hbody
    obtain ⟨gap', body, rfl, hgap', hbody⟩ := exists_gap hrest
    exact ⟨_, _, _, hsign, hlit, .based hbase hgap hgap' (jumbled_of_filter hbody hdigits)⟩

lemma ResemblesLiteral.mem (h : ResemblesLiteral lit) (hc : c ∈ lit) :
    IsInner c ∨ c ∈ ['+', '-'] := by
  have hsigns : ∀ p ∈ signs, p.1 ⊆ ['+', '-'] := by decide
  have hletters : ∀ p ∈ baseLetters, IsInner p.1 := by decide
  by_cases hline : c = '_'
  · exact .inl (.inr (by simp [hline]))
  · have hmem : c ∈ lit.filter (· ≠ '_') := List.mem_filter.2 ⟨hc, decide_eq_true hline⟩
    cases h with
    | decimal hsign hdigits h =>
      rw [h, List.mem_append] at hmem
      rcases hmem with hmem | hmem
      · exact .inr (hsigns _ hsign hmem)
      · exact .inl (.inl ((hdigits c hmem).trans (by decide)))
    | based hsign hbase hdigits h =>
      rw [h, List.mem_append, List.mem_cons, List.mem_cons] at hmem
      rcases hmem with hmem | rfl | rfl | hmem
      · exact .inr (hsigns _ hsign hmem)
      · exact .inl (by decide)
      · exact .inl (hletters _ hbase)
      · exact .inl (.inl ((hdigits c hmem).trans_le (bounds_of_mem_baseLetters hbase).2))

lemma ResemblesLiteral.not_mem_enders (h : ResemblesLiteral lit) : ∀ c ∈ lit, c ∉ enders := by
  have henders : ∀ c ∈ enders, ¬(IsInner c ∨ c ∈ ['+', '-']) :=
    List.all_iff_forall_prop.1 (by decide)
  exact fun c hc hender => henders c hender (h.mem hc)

lemma Unsigned.inner (h : Unsigned body) : ∀ c ∈ body, IsInner c := by
  have hjumbled : ∀ {base body}, base ≤ 16 → Jumbled base body → ∀ c ∈ body, IsInner c :=
    fun hbase hbody c hc => (hbody c hc).imp (fun hd => hd.trans_le hbase) fun hc => by simp [hc]
  have hlines : ∀ {gap : List Char}, (∀ c ∈ gap, c = '_') → ∀ c ∈ gap, IsInner c :=
    fun hgap c hc => .inr (by simp [hgap c hc])
  have hletters : ∀ p ∈ baseLetters, IsInner p.1 := by decide
  cases h with
  | decimal hbody => exact hjumbled (by decide) hbody
  | based hbase hgap hgap' hbody =>
    simp only [List.forall_mem_append, List.forall_mem_cons]
    exact ⟨hlines hgap, by decide, hlines hgap', hletters _ hbase,
      hjumbled (bounds_of_mem_baseLetters hbase).2 hbody⟩

lemma Unsigned.head (h : Unsigned body) (hc : body.head? = some c) :
    digitValue c < 10 ∨ c = '_' := by
  cases h with
  | decimal hbody => exact hbody c (List.mem_of_mem_head? hc)
  | @based gap gap' body letter base hbase hgap =>
    cases gap with
    | nil =>
      cases hc
      exact .inl (by decide)
    | cons d gap =>
      cases hc
      exact .inr (hgap _ (by simp))

/-- A character that neither stands among the digits nor ends a value. -/
def IsStrange (m : Char) : Prop := 10 ≤ digitValue m ∧ m ≠ '_' ∧ m ∉ enders

instance : DecidablePred IsStrange := fun _ => inferInstanceAs (Decidable (_ ∧ _))

lemma head_jumbled (hbody : Jumbled 10 body) (hafter : Ended after) (hm : IsStrange m) :
    (body ++ after).head? ≠ some m := by
  obtain ⟨hdigit, hline, hender⟩ := hm
  intro h
  cases body with
  | nil => exact hender (hafter.head h)
  | cons c body =>
    cases h
    exact hbody.not_mem hdigit hline List.mem_cons_self

/-- The digits behind a sign are read as such. -/
lemma number?_jumbled (hsign : (sgn, negative) ∈ signs) (hbody : Jumbled 10 body)
    (hafter : Ended after) :
    number? (sgn ++ (body ++ after)) = unsigned? negative (body ++ after) := by
  have hmarks : ∀ m ∈ ['+', '-', 'i', 'n'], IsStrange m :=
    List.all_iff_forall_prop.1 (by decide)
  have hletters : ∀ p ∈ baseLetters, IsStrange p.1 := by decide
  refine number?_decimal_signed hsign (fun m hm => head_jumbled hbody hafter (hmarks m hm)) ?_
  rintro - p hp ⟨stop, hstop⟩
  -- the letter of a base would have to stand behind the first digit
  cases body with
  | nil =>
    have hzero : '0' ∉ enders := by decide
    exact hzero (hafter.head (by rw [← List.nil_append after, ← hstop]; rfl))
  | cons c body =>
    have hrest : p.1 :: stop = body ++ after := (List.cons.inj hstop).2
    have hbehind : Jumbled 10 body := fun d hd => hbody d (List.mem_cons_of_mem c hd)
    exact head_jumbled hbehind hafter (hletters p hp) (by rw [← hrest]; rfl)

/-- Where a value ends behind the text of an integer, the number is that integer, or none if it does
not fit. -/
lemma number?_of_spells (h : SpellsLiteral lit n) (hafter : Ended after) :
    number? (lit ++ after) = if FitsInt64 n then some (.integer n, after) else none := by
  cases h with
  | @decimal sgn text ds negative hsign h hzero =>
    have hgoes : goesOn after = false := by
      cases after with
      | nil => rfl
      | cons c cs =>
        have henders : ∀ c ∈ enders, goesOn (c :: cs) = false := by simp [goesOn, enders, borders]
        exact henders c (hafter.head rfl)
    rw [List.append_assoc, number?_jumbled hsign h.jumbled hafter, unsigned?,
      wholeDigits?_of_spells h hzero (hafter.noDigit 10)]
    simp only [Option.bind_eq_bind, Option.bind_some, hgoes]
    exact integer?_eq (by decide) (by decide) h.digits
  | based hbase h =>
    obtain ⟨hlow, hhigh⟩ := bounds_of_mem_baseLetters hbase
    rw [List.cons_append, List.cons_append, number?_based hbase, prefixed?,
      digits?_of_spells hhigh h (hafter.noDigit _)]
    simp only [Option.bind_eq_bind, Option.bind_some]
    exact integer?_eq hlow hhigh h.digits

/-- A number that is read off digits and underscores is spelled by a part of them. -/
lemma spells_of_jumbled (hsign : (sgn, negative) ∈ signs) (hbody : Jumbled 10 body)
    (hafter : Ended after) (hread : number? (sgn ++ (body ++ after)) = some (x, rest)) :
    ∃ text n, sgn ++ (body ++ after) = text ++ rest ∧ SpellsLiteral text n ∧ x = .integer n := by
  rw [number?_jumbled hsign hbody hafter] at hread
  obtain ⟨text, ds, stop, htext, hspells, hzero, hinteger⟩ := spells_of_unsigned? hread
  have htight := hspells.jumbled.not_mem_enders (by decide)
  obtain ⟨more, rfl, rfl⟩ := eq_append_of_ended hafter htight htext
  have hmore : Jumbled 10 more := fun c hc => hbody c (List.mem_append_right text hc)
  have hgoes : goesOn (more ++ after) = false := by
    have hstrange : ∀ m ∈ ['.', 'e', 'E'], IsStrange m :=
      List.all_iff_forall_prop.1 (by decide)
    cases hstop : more ++ after with
    | nil => rfl
    | cons c cs =>
      have hc : ∀ m ∈ ['.', 'e', 'E'], c ≠ m := by
        rintro m hm rfl
        exact head_jumbled hmore hafter (hstrange c hm) (by rw [hstop]; rfl)
      simp only [List.forall_mem_cons] at hc
      simp [goesOn, hc]
  obtain ⟨rfl, rfl⟩ := hinteger hgoes
  exact ⟨sgn ++ text, _, by simp, .decimal hsign hspells hzero, rfl⟩

/-- The letter of a base that is not just behind a first zero is taken for no letter of a base. -/
lemma number?_misplaced (hsign : (sgn, negative) ∈ signs) (hgap : ∀ c ∈ gap, c = '_')
    (hgap' : ∀ c ∈ gap', c = '_') (hnot : ¬(sgn = [] ∧ gap = [] ∧ gap' = [])) :
    number? (sgn ++ (gap ++ '0' :: (gap' ++ letter :: cs))) =
      unsigned? negative (gap ++ '0' :: (gap' ++ letter :: cs)) := by
  refine number?_decimal_signed hsign (fun m hm h => ?_) fun hsgn p hp hstart => hnot ?_
  · have hmarks : '_' ∉ ['+', '-', 'i', 'n'] ∧ '0' ∉ ['+', '-', 'i', 'n'] := by decide
    cases gap with
    | nil =>
      cases h
      exact hmarks.2 hm
    | cons d gap =>
      cases h
      exact hmarks.1 (hgap m (by simp) ▸ hm)
  · have hletters : ∀ p ∈ baseLetters, p.1 ≠ '_' := by decide
    obtain ⟨stop, hstop⟩ := hstart
    cases gap with
    | nil =>
      cases gap' with
      | nil => exact ⟨hsgn, rfl, rfl⟩
      | cons d gap' =>
        cases hstop
        exact absurd (hgap' _ (by simp)) (hletters p hp)
    | cons d gap =>
      obtain rfl : '0' = d := (List.cons.inj hstop).1
      exact absurd (hgap '0' (by simp)) (by decide)

/-- Only the zero in front of such a letter is a number. -/
lemma spells_of_misplaced (hsign : (sgn, negative) ∈ signs) (hbase : (letter, base) ∈ baseLetters)
    (hgap : ∀ c ∈ gap, c = '_') (hgap' : ∀ c ∈ gap', c = '_')
    (hread : unsigned? negative (gap ++ '0' :: (gap' ++ letter :: cs)) = some (x, rest)) :
    ∃ text n, sgn ++ (gap ++ '0' :: (gap' ++ letter :: cs)) = text ++ rest ∧ SpellsLiteral text n ∧
      x = .integer n := by
  cases gap with
  | cons d gap =>
    obtain rfl := hgap d (by simp)
    cases hread
  | nil =>
    have hgoes : goesOn (gap' ++ letter :: cs) = false := by
      have hletters : ∀ p ∈ baseLetters, ∀ cs, goesOn (p.1 :: cs) = false := by
        simp [goesOn, baseLetters]
      cases gap' with
      | nil => exact hletters _ hbase cs
      | cons d gap' =>
        obtain rfl := hgap' d (by simp)
        rfl
    have hwhole : wholeDigits? ('0' :: (gap' ++ letter :: cs)) =
      some (['0'], gap' ++ letter :: cs) := rfl
    have hdigits : SpellsDigits 10 ['0'] ['0'] := .one (by decide)
    rw [List.nil_append, unsigned?, hwhole] at hread
    simp only [Option.bind_eq_bind, Option.bind_some, hgoes] at hread
    rw [if_neg (by decide), integer?_eq (by decide) (by decide) hdigits.digits] at hread
    obtain ⟨-, heq⟩ := Option.ite_none_right_eq_some.1 hread
    obtain ⟨rfl, rfl⟩ := Prod.mk.inj (Option.some.inj heq)
    exact ⟨sgn ++ ['0'], _, by simp, .decimal hsign hdigits fun _ => rfl, rfl⟩

/-- A number that is read off such a text is an integer, and a part of the text spells it. -/
lemma Unsigned.spells (h : Unsigned body) (hsign : (sgn, negative) ∈ signs) (hafter : Ended after)
    (hread : number? (sgn ++ (body ++ after)) = some (x, rest)) :
    ∃ text n, sgn ++ (body ++ after) = text ++ rest ∧ SpellsLiteral text n ∧ x = .integer n := by
  cases h with
  | decimal hbody => exact spells_of_jumbled hsign hbody hafter hread
  | @based gap gap' body letter base hbase hgap hgap' hbody =>
    rw [List.append_assoc, List.cons_append, List.append_assoc, List.cons_append] at hread ⊢
    by_cases hplain : sgn = [] ∧ gap = [] ∧ gap' = []
    · obtain ⟨rfl, rfl, rfl⟩ := hplain
      simp only [List.nil_append, number?_based hbase] at hread
      obtain ⟨hlow, hhigh⟩ := bounds_of_mem_baseLetters hbase
      obtain ⟨text, ds, htext, hspells, rfl⟩ := spells_of_prefixed? hlow hhigh hread
      exact ⟨'0' :: letter :: text, _, by simp [htext], .based hbase hspells, rfl⟩
    · rw [number?_misplaced hsign hgap hgap' hplain] at hread
      exact spells_of_misplaced hsign hbase hgap hgap' hread

/-- Behind the first character, no other characters stand. -/
lemma Unsigned.not_mem_tail (h : Unsigned body) (hsign : (sgn, negative) ∈ signs)
    (hm : ¬IsInner m) : m ∉ (sgn ++ body).tail := by
  have hbody : m ∉ body := fun hmem => hm (h.inner m hmem)
  rcases sign_cases hsign with ⟨rfl, -⟩ | ⟨rfl, -⟩ | ⟨rfl, -⟩
  · exact fun hmem => hbody (List.mem_of_mem_tail hmem)
  · exact hbody
  · exact hbody

lemma Unsigned.head_signed (h : Unsigned body) (hsign : (sgn, negative) ∈ signs)
    (hc : (sgn ++ body).head? = some c) : digitValue c < 10 ∨ c ∈ ['_', '+', '-'] := by
  rcases sign_cases hsign with ⟨rfl, -⟩ | ⟨rfl, -⟩ | ⟨rfl, -⟩
  · exact (h.head hc).imp_right fun hline => by simp [hline]
  · cases hc
    exact .inr (by decide)
  · cases hc
    exact .inr (by decide)

/-- A text with such a beginning is no value but a number. -/
lemma Unsigned.scalar?_eq (h : Unsigned body) (hsign : (sgn, negative) ∈ signs)
    (hne : sgn ++ body ≠ []) (hafter : Ended after) :
    scalar? (sgn ++ body ++ after) =
      (number? (sgn ++ body ++ after)).map fun r => (scalarOf r.1, r.2) := by
  have hmarks : ∀ c ∈ enders, Digits.isDigit 10 c = false ∧ c ≠ '-' ∧ c ≠ ':' :=
    List.all_iff_forall_prop.1 (by decide)
  have hdash := h.not_mem_tail hsign (show ¬IsInner '-' by decide)
  have hcolon := h.not_mem_tail hsign (show ¬IsInner ':' by decide)
  have hmoment : moment? (sgn ++ body ++ after) = none :=
    moment?_eq_none hdash hcolon fun c hc => hmarks c (hafter.head hc)
  have hstart : ∀ m, ¬(digitValue m < 10 ∨ m ∈ ['_', '+', '-']) →
      (sgn ++ body ++ after).head? ≠ some m := by
    intro m hm hhead
    rw [List.head?_append_of_ne_nil _ hne] at hhead
    exact hm (h.head_signed hsign hhead)
  have hword : ∀ m, ¬(digitValue m < 10 ∨ m ∈ ['_', '+', '-']) → ∀ word,
      ¬(m :: word) <+: sgn ++ body ++ after := by
    rintro m hm word ⟨stop, hstop⟩
    exact hstart m hm (by rw [← hstop]; rfl)
  have hread := Proofs.scalar?_eq _ (hstart '"' (by decide)) (hstart '\'' (by decide))
  rw [if_neg (hword 't' (by decide) _), if_neg (hword 'f' (by decide) _), hmoment] at hread
  exact hread

lemma scalar?_line : scalar? ('_' :: cs) = none := by
  have hdigit : Digits.isDigit 10 '_' = false := by decide
  have hfield : ∀ width least greatest, field? (width + 1) least greatest ('_' :: cs) = none := by
    intro width least greatest
    simp [field?, hdigit]
  have hmoment : moment? ('_' :: cs) = none := by
    simp [moment?, date?, time?, hfield]
  rw [Proofs.scalar?_eq _ (by simp) (by simp), if_neg (by simp), if_neg (by simp), hmoment]
  rfl

/-- Where a value ends behind the text of an integer, the text is read as the integer, or as no value
if it does not fit. -/
theorem scalar?_of_spells_literal (h : SpellsLiteral lit n) (hafter : Ended after) :
    scalar? (lit ++ after) = if FitsInt64 n then some (.integer n, after) else none := by
  obtain ⟨sgn, negative, body, hsign, rfl, hbody⟩ := h.unsigned
  rw [hbody.scalar?_eq hsign h.ne_nil hafter, number?_of_spells h hafter]
  split <;> rfl

/-- Such a text is a whole value only if it spells an integer. -/
theorem spells_literal_of_scalar? (h : ResemblesLiteral lit) (hne : lit ≠ []) (hafter : Ended after)
    (hread : scalar? (lit ++ after) = some (s, rest)) (hend : Ended rest) :
    ∃ n, SpellsLiteral lit n ∧ s = .integer n ∧ rest = after := by
  obtain ⟨cs, rfl⟩ | ⟨sgn, negative, body, hsign, rfl, hbody⟩ := h.unsigned
  · rw [List.cons_append, scalar?_line] at hread
    cases hread
  · rw [hbody.scalar?_eq hsign hne hafter, List.append_assoc] at hread
    obtain ⟨⟨x, stop⟩, hnumber, heq⟩ := Option.map_eq_some_iff.1 hread
    obtain ⟨text, n, htext, hspells, rfl⟩ := hbody.spells hsign hafter hnumber
    obtain ⟨rfl, rfl⟩ := Prod.mk.inj heq
    rw [← List.append_assoc] at htext
    obtain ⟨more, hlit, rfl⟩ := eq_append_of_ended hafter hspells.resembles.not_mem_enders htext
    cases more with
    | nil => exact ⟨n, by simpa [hlit] using hspells, rfl, rfl⟩
    | cons c more => exact absurd hend (ended_cons (h.not_mem_enders c (by simp [hlit])))

end Literals

/-! ### Integers in a document -/

/-- The revised table has a scalar at an address, and the other scalars stay. -/
structure Replaces (r : Revision) (t : Table Value) (a : Address) (s : Scalar) (span : Span) :
    Prop where
  here : valueAt? a (.table (r.table t)) = some (.scalar s span)
  elsewhere : ∀ b s' span', b ≠ a → valueAt? b (.table t) = some (.scalar s' span') →
    r.scalar span' s' = s'

section Documents

variable {before after lit : List Char} {t : Table Value} {a : Address} {n : Int} {s : Scalar}

lemma ResemblesLiteral.bare (h : ResemblesLiteral lit) (hne : lit ≠ []) :
    Bare (lit ++ after) := by
  have hothers : ∀ c ∈ ['_', 'x', 'o'] ++ ['+', '-'], isText c ∧ c ∉ specials :=
    List.all_iff_forall_prop.1 (by decide)
  have hdigits : ∀ c ∈ lowerDigits ++ upperDigits, isText c ∧ c ∉ specials :=
    List.all_iff_forall_prop.1 (by decide)
  obtain ⟨c, cs, rfl⟩ := List.exists_cons_of_ne_nil hne
  refine ⟨c, cs ++ after, rfl, ?_⟩
  rcases h.mem List.mem_cons_self with (hdigit | hletter) | hsign
  · exact hdigits c (mem_of_digitValue hdigit)
  · exact hothers c (List.mem_append_left _ hletter)
  · exact hothers c (List.mem_append_right _ hsign)

lemma spells_zero : SpellsLiteral ['0'] 0 := by
  have hnone : ([], false) ∈ signs := by decide
  have hdigits : SpellsDigits 10 ['0'] ['0'] := .one (by decide)
  have hspells := SpellsLiteral.decimal hnone hdigits fun _ => rfl
  exact hspells

/-- A text for the digit, where a value ends behind it. -/
def ResemblesLiteral.exchange (h : ResemblesLiteral lit) (hne : lit ≠ []) (hafter : Ended after) :
    Exchange where
  new := lit ++ after
  after := after
  bare := h.bare hne
  longer := by
    have hpos := List.length_pos_iff.2 hne
    rw [List.length_append]
    omega
  hole s rest hread := by
    have hzero := scalar?_of_spells_literal spells_zero hafter
    rw [if_pos (by decide)] at hzero
    exact (Prod.mk.inj (Option.some.inj (hread.symm.trans hzero))).2
  whole s rest hread hend := by
    obtain ⟨n, -, -, hrest⟩ := spells_literal_of_scalar? h hne hafter hread hend
    exact hrest

/-- A value ends behind a digit that is one. -/
lemma ended_of_digit (h : document? (before ++ '0' :: after) = some t)
    (hv : valueAt? a (.table t) = some (.scalar s ⟨'0' :: after, after⟩)) : Ended after := by
  have hread : scalar? ('0' :: after) = some (s, after) := document?_reads h hv
  have hrest : ∀ s' rest, scalar? ('0' :: after) = some (s', rest) → rest = after := fun s' rest h' =>
    (Prod.mk.inj (Option.some.inj (h'.symm.trans hread))).2
  let e : Exchange := ⟨'0' :: after, after, ⟨'0', after, rfl, by decide, by decide⟩, Nat.lt_succ_self _,
    hrest, fun s' rest h' _ => hrest s' rest h'⟩
  have hsame := e.document?_exchange h ⟨a, s, _, hv, rfl⟩
  by_contra hnot
  have hfill : e.fill? = none := by
    rw [Exchange.fill?, hread, Option.bind_some, if_neg hnot]
  rw [hfill, h] at hsame
  cases hsame

/-- Where a document has the digit `0` for a value, a text that spells an integer gives that integer,
and no document if it does not fit. A text that only resembles one gives none. -/
theorem document?_literal (h : document? (before ++ '0' :: after) = some t)
    (hv : valueAt? a (.table t) = some (.scalar s ⟨'0' :: after, after⟩))
    (hlit : ResemblesLiteral lit) (hne : lit ≠ []) :
    (∀ n, SpellsLiteral lit n → FitsInt64 n → ∃ r : Revision,
      document? (before ++ (lit ++ after)) = some (r.table t) ∧
        Replaces r t a (.integer n) ⟨lit ++ after, after⟩) ∧
    (∀ n, SpellsLiteral lit n → ¬FitsInt64 n → document? (before ++ (lit ++ after)) = none) ∧
    ((∀ n, ¬SpellsLiteral lit n) → document? (before ++ (lit ++ after)) = none) := by
  have hafter := ended_of_digit h hv
  let e := hlit.exchange hne hafter
  have hexchange : document? (before ++ (lit ++ after)) =
      e.fill?.map fun x => (e.revision x).table t :=
    e.document?_exchange h ⟨a, s, _, hv, rfl⟩
  have hnone : (∀ s' rest, scalar? (lit ++ after) = some (s', rest) → ¬Ended rest) →
      document? (before ++ (lit ++ after)) = none := by
    intro hnot
    have hfill : e.fill? = none :=
      Option.bind_eq_none_iff.2 fun r hr => if_neg (hnot r.1 r.2 hr)
    rw [hexchange, hfill]
    rfl
  refine ⟨fun n hspells hfits => ?_, fun n hspells hnot => ?_, fun hnot => ?_⟩
  · have hfill : e.fill? = some (.integer n) := by
      have hread := scalar?_of_spells_literal hspells hafter
      rw [if_pos hfits] at hread
      change (scalar? (lit ++ after)).bind _ = _
      rw [hread, Option.bind_some, if_pos hafter]
    refine ⟨e.revision (.integer n), by rw [hexchange, hfill]; rfl, ?_, ?_⟩
    · have hshift : e.shift after = after := e.shift_of_lt (Nat.lt_succ_self _)
      have hnew : e.shift ('0' :: after) = lit ++ after := e.shift_old
      rw [← Revision.value_table, Revision.valueAt?_value, hv, Option.map_some, Revision.value_scalar,
        e.revision_span, hshift, hnew]
      exact congrArg (fun x => some (Value.scalar x _)) (if_pos rfl)
    · -- two scalars at one place would be the same one
      intro b s' span' hb hv'
      refine if_neg fun hstart => hb ?_
      exact (document?_spread h).1 b a _ ⟨s', span', hv', hstart⟩ ⟨s, _, hv, rfl⟩
  · refine hnone fun s' rest hread => ?_
    rw [scalar?_of_spells_literal hspells hafter, if_neg hnot] at hread
    cases hread
  · refine hnone fun s' rest hread hend => ?_
    obtain ⟨n, hspells, -, -⟩ := spells_literal_of_scalar? hlit hne hafter hread hend
    exact hnot n hspells

end Documents

end MemberRelay.Proofs
