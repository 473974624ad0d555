import MemberRelay.Proofs.Toml.Report
import MemberRelay.Proofs.Toml.Unread

/-!
# Where values end

Numbers and dates never reach past a character that ends a value, so they read what is before it as
if nothing came after. Strings end by themselves. Therefore a value without parts is read the same in
every text that goes on differently after such a character.
-/

namespace MemberRelay.Proofs
open Toml

/-- The characters that end a value, and that no number and no date has. -/
def borders : List Char := ['#', '\n', '\r', ',', ']', '\x7d']

/-! ### Numbers and dates -/

section Numbers

variable {m : Char} (hm : m ∈ borders) (tail cs : List Char)
include hm

lemma not_isDigit_border (base : Nat) : Digits.isDigit base m = false := by
  have hvalue : ∀ c ∈ borders, Digits.value? c = none :=
    List.all_iff_forall_prop.1 (by decide)
  rw [Digits.isDigit, hvalue m hm]

lemma border_ne {c : Char} (hc : c ∉ borders) : m ≠ c := fun h => hc (h ▸ hm)

lemma field?_append (width least greatest : Nat) :
    field? width least greatest (cs ++ m :: tail) =
      (field? width least greatest cs).map fun r => (r.1, r.2 ++ m :: tail) := by
  by_cases hwidth : width ≤ cs.length
  · rw [field?, field?, List.take_append_of_le_length hwidth, List.drop_append_of_le_length hwidth]
    split <;> rfl
  · -- the border would have to be a digit
    have hmem : m ∈ (cs ++ m :: tail).take width := by
      obtain ⟨k, hk⟩ := Nat.exists_eq_add_of_lt (Nat.lt_of_not_le hwidth)
      rw [hk, Nat.add_assoc, List.take_append]
      simp
    have hdigits : ((cs ++ m :: tail).take width).all (Digits.isDigit 10) = false := by
      rw [List.all_eq_false]
      exact ⟨m, hmem, by rw [not_isDigit_border hm]; decide⟩
    have hshort : ¬(cs.take width).length = width := by
      rw [List.length_take]
      omega
    rw [field?, field?, hdigits, decide_eq_false hshort]
    simp

lemma literal?_append {c : Char} (hc : c ∉ borders) : Reader.literal? [c] (cs ++ m :: tail) =
    (Reader.literal? [c] cs).map (· ++ m :: tail) := by
  cases cs with
  | nil =>
    have hne : c ≠ m := (border_ne hm hc).symm
    simp [Reader.literal?, hne]
  | cons a cs =>
    by_cases h : c = a <;> simp [Reader.literal?, h]

lemma date?_append : date? (cs ++ m :: tail) = (date? cs).map (· ++ m :: tail) := by
  have hdash : '-' ∉ borders := by decide
  simp only [date?, field?_append hm, literal?_append hm _ _ hdash, Option.bind_eq_bind, Option.bind_map,
    Option.map_bind, Function.comp_def, Option.map_some]

lemma run_append_border (base : Nat) : Digits.run base (cs ++ m :: tail) =
    ((Digits.run base cs).1, (Digits.run base cs).2 ++ m :: tail) := by
  have hstop := not_isDigit_border hm base
  induction cs with
  | nil => simp [Digits.run, hstop]
  | cons c cs ih =>
    rw [Digits.run, Prod.mk.injEq] at ih
    by_cases hc : Digits.isDigit base c = true
    · simp [Digits.run, hc, ih]
    · simp [Digits.run, hc]

lemma time?_append : time? (cs ++ m :: tail) = (time? cs).map (· ++ m :: tail) := by
  have hcolon : ':' ∉ borders := by decide
  simp only [time?, field?_append hm, literal?_append hm _ _ hcolon, Option.bind_eq_bind,
    Option.bind_map, Option.map_bind, Function.comp_def]
  refine Option.bind_congr fun _ _ => Option.bind_congr fun _ _ => Option.bind_congr fun _ _ =>
    Option.bind_congr fun _ _ => Option.bind_congr fun r _ => ?_
  rcases r with ⟨seconds, _ | ⟨c, cs⟩⟩
  · have hpoint : m ≠ '.' := border_ne hm (by decide)
    simp [hpoint]
  · by_cases hc : c = '.'
    · subst hc
      simp only [List.cons_append, run_append_border hm]
      rcases Digits.run 10 cs with ⟨_ | ⟨d, ds⟩, rest⟩ <;> rfl
    · simp [hc]

lemma offset?_append : offset? (cs ++ m :: tail) = (offset? cs).map (· ++ m :: tail) := by
  have hcolon : ':' ∉ borders := by decide
  cases cs with
  | nil =>
    have hmarks : ∀ c ∈ ['Z', 'z', '+', '-'], c ∉ borders :=
      List.all_iff_forall_prop.1 (by decide)
    have hstart : ∀ c ∈ ['Z', 'z', '+', '-'], m ≠ c := fun c hc => border_ne hm (hmarks c hc)
    simp only [List.forall_mem_cons] at hstart
    simp [offset?, hstart]
  | cons c cs =>
    by_cases hZ : c = 'Z'
    · simp [offset?, hZ]
    by_cases hz : c = 'z'
    · simp [offset?, hz]
    by_cases hsign : c = '+' ∨ c = '-'
    · simp [offset?, hsign, field?_append hm, literal?_append hm _ _ hcolon, Option.bind_map,
        Option.map_bind]
    · simp [offset?, not_or.1 hsign]

lemma moment?_append : moment? (cs ++ m :: tail) = (moment? cs).map (· ++ m :: tail) := by
  rw [moment?, moment?, date?_append hm]
  rcases date? cs with _ | _ | ⟨c, rest⟩
  · exact time?_append hm tail cs
  · have hT : m ≠ 'T' := border_ne hm (by decide)
    have ht : m ≠ 't' := border_ne hm (by decide)
    have hblank : m ≠ ' ' := border_ne hm (by decide)
    simp [hT, ht, hblank]
  · dsimp only [Option.map_some, List.cons_append]
    rw [time?_append hm]
    split
    · cases time? rest with
      | none => rfl
      | some stop =>
        dsimp only [Option.map_some]
        rw [offset?_append hm]
        cases offset? stop <;> rfl
    · rfl

lemma digitsFrom_append (base : Nat) (done : List Char) : digitsFrom base done (cs ++ m :: tail) =
    ((digitsFrom base done cs).1, (digitsFrom base done cs).2 ++ m :: tail) := by
  have hstop := not_isDigit_border hm base
  have hline : m ≠ '_' := border_ne hm (by decide)
  fun_induction digitsFrom base done cs with
  | case1 done c cs hc ih => simpa [digitsFrom, hc] using ih
  | case2 done c cs hc => simp [digitsFrom, hc]
  | case3 done c cs hnot hc ih =>
    have hc' : c ≠ '_' := by
      rintro rfl
      simp [Digits.isDigit, Digits.value?] at hc
    simpa [digitsFrom, hc, hc'] using ih
  | case4 done c cs hnot hc =>
    cases cs with
    | nil => by_cases hc' : c = '_' <;> simp [digitsFrom, hc, hc', hstop]
    | cons d cs =>
      have hc' : c ≠ '_' := fun heq => hnot d cs heq rfl
      simp [digitsFrom, hc, hc']
  | case5 done => simp [digitsFrom, hstop, hline]

lemma digits?_append (base : Nat) : digits? base (cs ++ m :: tail) =
    (digits? base cs).map fun r => (r.1, r.2 ++ m :: tail) := by
  cases cs with
  | nil => simp [digits?, not_isDigit_border hm]
  | cons c cs =>
    by_cases hc : Digits.isDigit base c = true <;> simp [digits?, hc, digitsFrom_append hm]

lemma wholeDigits?_append : wholeDigits? (cs ++ m :: tail) =
    (wholeDigits? cs).map fun r => (r.1, r.2 ++ m :: tail) := by
  cases cs with
  | nil =>
    have hzero : m ≠ '0' := border_ne hm (by decide)
    simp [wholeDigits?, hzero, digits?, not_isDigit_border hm]
  | cons c cs =>
    by_cases hc : c = '0'
    · simp [wholeDigits?, hc]
    · simpa [wholeDigits?, hc] using digits?_append hm tail (c :: cs) 10

lemma sign_append : sign (cs ++ m :: tail) = ((sign cs).1, (sign cs).2 ++ m :: tail) := by
  cases cs with
  | nil =>
    have hplus : m ≠ '+' := border_ne hm (by decide)
    have hminus : m ≠ '-' := border_ne hm (by decide)
    simp [sign, hplus, hminus]
  | cons c cs =>
    by_cases hplus : c = '+'
    · simp [sign, hplus]
    · by_cases hminus : c = '-' <;> simp [sign, hplus, hminus]

lemma exponent?_append : exponent? (cs ++ m :: tail) =
    (exponent? cs).map fun r => (r.1, r.2 ++ m :: tail) := by
  cases cs with
  | nil =>
    have he : m ≠ 'e' := border_ne hm (by decide)
    have hE : m ≠ 'E' := border_ne hm (by decide)
    simp [exponent?, he, hE]
  | cons c cs =>
    by_cases hc : c = 'e' ∨ c = 'E'
    · simp [exponent?, hc, sign_append hm, digits?_append hm, Function.comp_def]
    · simp [exponent?, not_or.1 hc]

lemma fraction?_append : fraction? (cs ++ m :: tail) =
    (fraction? cs).map fun r => (r.1, r.2 ++ m :: tail) := by
  cases cs with
  | nil =>
    have hpoint : m ≠ '.' := border_ne hm (by decide)
    simp [fraction?, hpoint]
  | cons c cs =>
    by_cases hc : c = '.'
    · simp [fraction?, hc, digits?_append hm]
    · simp [fraction?, hc]

omit hm in
lemma integer?_append (negative : Bool) (base : Nat) (ds rest more : List Char) :
    integer? negative base ds (rest ++ more) =
      (integer? negative base ds rest).map fun r => (r.1, r.2 ++ more) := by
  cases negative <;> simp [integer?]

lemma prefixed?_append (base : Nat) : prefixed? base (cs ++ m :: tail) =
    (prefixed? base cs).map fun r => (r.1, r.2 ++ m :: tail) := by
  simp only [prefixed?, digits?_append hm, integer?_append, Option.bind_eq_bind, Option.bind_map,
    Option.map_bind, Function.comp_def]

lemma goesOn_append : goesOn (cs ++ m :: tail) = goesOn cs := by
  cases cs with
  | nil =>
    have hpoint : m ≠ '.' := border_ne hm (by decide)
    have he : m ≠ 'e' := border_ne hm (by decide)
    have hE : m ≠ 'E' := border_ne hm (by decide)
    simp [goesOn, hpoint, he, hE]
  | cons c cs => rfl

lemma float?_append (negative : Bool) (whole : List Char) : float? negative whole (cs ++ m :: tail) =
    (float? negative whole cs).map fun r => (r.1, r.2 ++ m :: tail) := by
  simp only [float?, fraction?_append hm, exponent?_append hm, Option.bind_eq_bind, Option.bind_map,
    Option.map_bind, Function.comp_def]
  refine Option.bind_congr fun _ _ => Option.bind_congr fun _ _ => ?_
  split <;> rfl

lemma unsigned?_append (negative : Bool) : unsigned? negative (cs ++ m :: tail) =
    (unsigned? negative cs).map fun r => (r.1, r.2 ++ m :: tail) := by
  simp only [unsigned?, wholeDigits?_append hm, Option.bind_eq_bind, Option.bind_map,
    Option.map_bind, Function.comp_def, goesOn_append hm]
  refine Option.bind_congr fun _ _ => ?_
  split
  · exact float?_append hm _ _ _ _
  · exact integer?_append _ _ _ _ _

omit hm in
lemma number?_eq : number? cs =
    if ['0', 'x'] <+: cs then prefixed? 16 (cs.drop 2)
    else if ['0', 'o'] <+: cs then prefixed? 8 (cs.drop 2)
    else if ['0', 'b'] <+: cs then prefixed? 2 (cs.drop 2)
    else if ['i', 'n', 'f'] <+: (sign cs).2 then
      some (.float (.infinite (sign cs).1), (sign cs).2.drop 3)
    else if ['n', 'a', 'n'] <+: (sign cs).2 then some (.float .notANumber, (sign cs).2.drop 3)
    else unsigned? (sign cs).1 (sign cs).2 := by
  unfold number?
  split
  · simp
  · simp
  · simp
  · next hx ho hb =>
    rw [if_neg fun ⟨t, h⟩ => hx t h.symm, if_neg fun ⟨t, h⟩ => ho t h.symm,
      if_neg fun ⟨t, h⟩ => hb t h.symm]
    dsimp only
    split
    · next h => simp [h]
    · next h => simp [h]
    · next hinf hnan =>
      rw [if_neg fun ⟨t, h⟩ => hinf t h.symm, if_neg fun ⟨t, h⟩ => hnan t h.symm]

/-- A word without borders is not begun by a border. -/
lemma starts_append {word : List Char} (hword : word.all (· ∉ borders)) :
    word <+: cs ++ m :: tail ↔ word <+: cs := by
  induction word generalizing cs with
  | nil => simp
  | cons c word ih =>
    rw [List.all_cons, Bool.and_eq_true, decide_eq_true_eq] at hword
    cases cs with
    | nil => simp [(border_ne hm hword.1).symm]
    | cons d cs => simp [ih cs hword.2]

lemma number?_append : number? (cs ++ m :: tail) =
    (number? cs).map fun r => (r.1, r.2 ++ m :: tail) := by
  have hstarts : ∀ cs, ∀ word ∈ [['0', 'x'], ['0', 'o'], ['0', 'b'], ['i', 'n', 'f'], ['n', 'a', 'n']],
      (word <+: cs ++ m :: tail ↔ word <+: cs) :=
    fun cs word h => starts_append hm tail cs (by revert word; decide)
  simp only [List.forall_mem_cons, List.not_mem_nil] at hstarts
  simp only [number?_eq, sign_append hm, hstarts]
  split_ifs with hx ho hb hinf hnan
  · obtain ⟨digits, rfl⟩ := hx
    exact prefixed?_append hm tail digits 16
  · obtain ⟨digits, rfl⟩ := ho
    exact prefixed?_append hm tail digits 8
  · obtain ⟨digits, rfl⟩ := hb
    exact prefixed?_append hm tail digits 2
  · obtain ⟨stop, hstop⟩ := hinf
    rw [← hstop]
    rfl
  · obtain ⟨stop, hstop⟩ := hnan
    rw [← hstop]
    rfl
  · exact unsigned?_append hm tail _ _

/-- A number as a value. -/
def scalarOf : Number → Scalar
  | .integer n => .integer n
  | .float x => .float x

omit hm in
lemma scalar?_eq (hquote : cs.head? ≠ some '"') (hquote' : cs.head? ≠ some '\'') : scalar? cs =
    if ['t', 'r', 'u', 'e'] <+: cs then some (.boolean true, cs.drop 4)
    else if ['f', 'a', 'l', 's', 'e'] <+: cs then some (.boolean false, cs.drop 5)
    else match moment? cs with
      | some rest => some (.moment (String.ofList (Span.mk cs rest).text), rest)
      | none => (number? cs).map fun r => (scalarOf r.1, r.2) := by
  unfold scalar?
  split
  · simp
  · simp
  · exact absurd rfl hquote
  · exact absurd rfl hquote'
  · next ht hf _ _ =>
    have htrue : ¬['t', 'r', 'u', 'e'] <+: cs := fun ⟨t, h⟩ => ht t h.symm
    have hfalse : ¬['f', 'a', 'l', 's', 'e'] <+: cs := fun ⟨t, h⟩ => hf t h.symm
    refine Eq.symm ((if_neg htrue).trans ((if_neg hfalse).trans ?_))
    cases moment? cs with
    | some => rfl
    | none => rcases number? cs with _ | ⟨_ | _, _⟩ <;> rfl

omit hm in
lemma text_append {stop : List Char} (h : stop <:+ cs) (more : List Char) :
    (Span.mk (cs ++ more) (stop ++ more)).text = (Span.mk cs stop).text := by
  obtain ⟨body, rfl⟩ := h
  rw [text_of_append, List.append_assoc, text_of_append]

lemma scalar?_append (hquote : cs.head? ≠ some '"') (hquote' : cs.head? ≠ some '\'') :
    scalar? (cs ++ m :: tail) = (scalar? cs).map fun r => (r.1, r.2 ++ m :: tail) := by
  have hhead : ∀ q, q ∉ borders → cs.head? ≠ some q → (cs ++ m :: tail).head? ≠ some q := by
    intro q hq h
    cases cs with
    | nil => simpa using border_ne hm hq
    | cons c cs => exact h
  have hstarts : ∀ word ∈ [['t', 'r', 'u', 'e'], ['f', 'a', 'l', 's', 'e']],
      (word <+: cs ++ m :: tail ↔ word <+: cs) :=
    fun word h => starts_append hm tail cs (by revert word; decide)
  simp only [List.forall_mem_cons, List.not_mem_nil] at hstarts
  rw [scalar?_eq _ (hhead _ (by decide) hquote) (hhead _ (by decide) hquote'), scalar?_eq _ hquote hquote',
    moment?_append hm, number?_append hm]
  simp only [hstarts]
  split_ifs with ht hf
  · obtain ⟨stop, rfl⟩ := ht
    rfl
  · obtain ⟨stop, rfl⟩ := hf
    rfl
  · cases h : moment? cs with
    | some rest =>
      dsimp only [Option.map_some]
      rw [text_append _ (moment?_suffix h)]
    | none => rcases number? cs with _ | ⟨n | x, rest⟩ <;> rfl

end Numbers

/-! ### Ends of values -/

/-- Only blanks stand before the next character that ends a value, or before the end of the text. -/
def Ended (rest : List Char) : Prop := (skipBlanks rest).head?.all (· ∈ borders) = true

instance : DecidablePred Ended := fun _ => inferInstanceAs (Decidable (_ = true))

section Ends

variable {cs u w y z : List Char} {s : Scalar}

lemma Bare.not_mem_borders {c : Char} (h : Bare (c :: cs)) : c ∉ borders := by
  have hsub : ∀ d ∈ borders, d ∈ specials :=
    List.all_iff_forall_prop.1 (by decide)
  exact fun hc => h.head?_ne (hsub c hc) rfl

lemma not_ended_bare (h : Bare y) : ¬Ended y := by
  obtain ⟨c, rest, rfl, -⟩ := id h
  rw [Ended, h.skipBlanks_eq]
  simpa using h.not_mem_borders

lemma ended_of_skipBlanks {c : Char} (h : skipBlanks cs = c :: w) (hc : c ∈ borders) : Ended cs := by
  rw [Ended, h]
  simpa using hc

/-- Filler starts with blanks or with something that ends a value. -/
lemma ended_of_skipFiller {c : Char} (h : skipFiller false cs = c :: w) (hc : c ∈ borders) :
    Ended cs := by
  induction cs with
  | nil => cases h
  | cons d cs ih =>
    by_cases hblank : isBlank d = true
    · have hskip : skipFiller false (d :: cs) = skipFiller false cs := by
        have hd : d ≠ '\n' ∧ d ≠ '\r' := by
          constructor <;> (rintro rfl; cases hblank)
        simp [skipFiller, hblank, hd]
      have hblanks : skipBlanks (d :: cs) = skipBlanks cs := by
        rw [skipBlanks, List.dropWhile_cons_of_pos hblank, skipBlanks]
      rw [Ended, hblanks]
      exact ih (hskip ▸ h)
    · have hblanks : skipBlanks (d :: cs) = d :: cs := List.dropWhile_cons_of_neg hblank
      by_cases hd : d ∈ borders
      · exact ended_of_skipBlanks hblanks hd
      · have hne : ∀ m ∈ borders, d ≠ m := fun m hm heq => hd (heq ▸ hm)
        have hfeed := hne '\n' (by decide)
        have hreturn := hne '\r' (by decide)
        have hnote := hne '#' (by decide)
        have hskip : skipFiller false (d :: cs) = d :: cs := by
          simp [skipFiller, hblank, hreturn, hnote]
        rw [hskip] at h
        cases h
        exact absurd hc hd

/-- What ends a value stands before a tail that does not. -/
lemma exists_border (hy : Bare y) (h : Ended (w ++ y)) : ∃ b m t, w = b ++ m :: t ∧ m ∈ borders := by
  rw [Ended, skipBlanks_before hy] at h
  cases hw : skipBlanks w with
  | nil =>
    rw [hw, List.nil_append] at h
    exact absurd (by rwa [Ended, hy.skipBlanks_eq]) (not_ended_bare hy)
  | cons m t =>
    rw [hw] at h
    refine ⟨w.takeWhile isBlank, m, t, ?_, by simpa using h⟩
    rw [← hw, skipBlanks, List.takeWhile_append_dropWhile]

lemma scalar?_quoted {c : Char} (hc : c = '"' ∨ c = '\'') : scalar? (c :: cs) =
    (Toml.string? (c :: cs)).map fun r => (.string (String.ofList r.1), r.2) := by
  rcases hc with rfl | rfl <;> rfl

/-- A value without parts is the same whatever stands behind its end. -/
theorem scalar?_before (hy : Bare y) (hy' : Bare z) (h : scalar? (u ++ y) = some (s, w ++ y))
    (hend : Ended (w ++ y)) : scalar? (u ++ z) = some (s, w ++ z) := by
  obtain ⟨p, hp⟩ := scalar?_suffix _ _ _ h
  rw [← List.append_assoc] at hp
  obtain rfl : p ++ w = u := List.append_cancel_right hp
  obtain ⟨b, m, t, rfl, hm⟩ := exists_border hy hend
  by_cases hquote : ∃ c cs, p ++ b = c :: cs ∧ (c = '"' ∨ c = '\'')
  · obtain ⟨c, cs, hcs, hc⟩ := hquote
    have hpiece : p ++ (b ++ m :: t) = c :: (cs ++ m :: t) := by
      rw [← List.append_assoc, hcs, List.cons_append]
    rw [hpiece, List.cons_append, scalar?_quoted hc] at h ⊢
    obtain ⟨⟨content, stop⟩, hstring, heq⟩ := Option.map_eq_some_iff.1 h
    obtain ⟨rfl, rfl⟩ := Prod.mk.inj heq
    rw [← List.cons_append] at hstring ⊢
    rw [string?_before hy' hstring]
    rfl
  · have hhead : ∀ q, q = '"' ∨ q = '\'' → (p ++ b).head? ≠ some q := by
      intro q hq heq
      cases hcs : p ++ b with
      | nil =>
        rw [hcs] at heq
        cases heq
      | cons c cs =>
        rw [hcs] at heq
        cases heq
        exact hquote ⟨q, cs, hcs, hq⟩
    have hread : ∀ y, scalar? (p ++ (b ++ m :: t) ++ y) =
        (scalar? (p ++ b)).map fun r => (r.1, r.2 ++ m :: (t ++ y)) := by
      intro y
      rw [← scalar?_append hm (t ++ y) (p ++ b) (hhead _ (.inl rfl)) (hhead _ (.inr rfl))]
      simp
    rw [hread] at h ⊢
    obtain ⟨⟨s', stop⟩, hs, heq⟩ := Option.map_eq_some_iff.1 h
    obtain ⟨rfl, hstop⟩ := Prod.mk.inj heq
    rw [List.append_assoc, List.cons_append] at hstop
    obtain rfl : stop = b := List.append_cancel_right hstop
    rw [hs]
    simp

end Ends

end MemberRelay.Proofs
