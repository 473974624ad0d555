import Mathlib.Data.List.Basic
import Mathlib.Tactic.Common
import MemberRelay.Toml.Value

/-!
# What readers leave

A reader takes its piece off the front of a text, so what it leaves is the end of that text. Here
this is shown for blanks and line ends, strings, numbers and dates, from which all other readers are
made.
-/

namespace MemberRelay.Proofs
open Toml

/-- What a reader leaves is the end of its text. -/
def LeavesEnd {α : Type} (read? : Reader α) : Prop :=
  ∀ cs a rest, read? cs = some (a, rest) → rest <:+ cs

instance suffixTrans : Trans (@List.IsSuffix Char) (@List.IsSuffix Char) (@List.IsSuffix Char) :=
  ⟨List.IsSuffix.trans⟩

/-! ### Blanks, line ends and strings -/

section Trivia

variable {cs rest : List Char} {c : Char}

lemma suffix_cons_of (h : rest <:+ cs) : rest <:+ c :: cs := h.trans (List.suffix_cons c cs)

lemma skipFiller_suffix (inside : Bool) (cs : List Char) : skipFiller inside cs <:+ cs := by
  fun_induction skipFiller inside cs <;> grind [List.suffix_cons_iff]

lemma skipBreaks_suffix (cs : List Char) : skipBreaks cs <:+ cs := by
  fun_induction skipBreaks cs <;> grind [List.suffix_cons_iff]

lemma newline?_suffix (h : newline? cs = some rest) : rest <:+ cs := by
  unfold newline? at h
  split at h
  · cases h
    exact List.suffix_cons _ _
  · cases h
    exact List.suffix_append ['\r', '\n'] _
  · cases h

lemma skipComment_suffix (cs : List Char) : skipComment cs <:+ cs := by
  unfold skipComment
  split
  · exact suffix_cons_of (List.dropWhile_suffix _)
  · exact List.suffix_rfl

lemma endOfLine?_suffix (h : endOfLine? cs = some rest) : rest <:+ cs := by
  have hskip := (skipComment_suffix (skipBlanks cs)).trans (List.dropWhile_suffix _)
  unfold endOfLine? at h
  split at h
  · cases h
    exact List.nil_suffix
  · exact (newline?_suffix h).trans hskip

end Trivia

section Strings

variable {cs rest done content : List Char} {c : Char}

lemma escaped?_suffix : LeavesEnd escaped? := by
  intro cs c rest h
  unfold escaped? at h
  split at h
  · obtain ⟨_, -, heq⟩ := Option.map_eq_some_iff.1 h
    cases heq
    exact List.suffix_append [_, _, _, _, _] _
  · obtain ⟨_, -, heq⟩ := Option.map_eq_some_iff.1 h
    cases heq
    exact List.suffix_append [_, _, _, _, _, _, _, _, _] _
  · obtain ⟨_, -, heq⟩ := Option.map_eq_some_iff.1 h
    cases heq
    exact List.suffix_cons _ _
  · cases h

lemma basicFrom_suffix (h : basicFrom done cs = some (content, rest)) : rest <:+ cs := by
  fun_induction basicFrom done cs with
  | case1 | case3 | case6 => cases h
  | case2 =>
    cases h
    exact List.suffix_cons _ _
  | case4 done cs c stop hescaped ih =>
    exact suffix_cons_of ((ih h).trans (escaped?_suffix _ _ _ hescaped))
  | case5 _ _ _ _ _ _ ih => exact suffix_cons_of (ih h)

lemma foldedLine?_suffix (h : foldedLine? cs = some rest) : rest <:+ cs := by
  obtain ⟨stop, hstop, rfl⟩ := Option.map_eq_some_iff.1 h
  exact ((skipBreaks_suffix stop).trans (newline?_suffix hstop)).trans (List.dropWhile_suffix _)

lemma multilineBasicFrom_suffix (h : multilineBasicFrom done cs = some (content, rest)) :
    rest <:+ cs := by
  fun_induction multilineBasicFrom done cs with
  | case1 | case6 | case11 => cases h
  | case2 =>
    cases h
    exact List.suffix_append [_, _, _, _, _] _
  | case3 =>
    cases h
    exact List.suffix_append [_, _, _, _] _
  | case4 =>
    cases h
    exact List.suffix_append [_, _, _] _
  | case5 done cs stop hfolded ih => exact suffix_cons_of ((ih h).trans (foldedLine?_suffix hfolded))
  | case7 done cs _ c stop hescaped ih =>
    exact suffix_cons_of ((ih h).trans (escaped?_suffix _ _ _ hescaped))
  | case8 done cs ih => exact suffix_cons_of (ih h)
  | case9 done cs ih => exact suffix_cons_of (suffix_cons_of (ih h))
  | case10 _ _ _ _ _ _ _ _ _ _ ih => exact suffix_cons_of (ih h)

lemma multilineLiteralFrom_suffix (h : multilineLiteralFrom done cs = some (content, rest)) :
    rest <:+ cs := by
  fun_induction multilineLiteralFrom done cs with
  | case1 | case8 => cases h
  | case2 =>
    cases h
    exact List.suffix_append [_, _, _, _, _] _
  | case3 =>
    cases h
    exact List.suffix_append [_, _, _, _] _
  | case4 =>
    cases h
    exact List.suffix_append [_, _, _] _
  | case5 done cs ih => exact suffix_cons_of (ih h)
  | case6 done cs ih => exact suffix_cons_of (suffix_cons_of (ih h))
  | case7 _ _ _ _ _ _ _ _ _ ih => exact suffix_cons_of (ih h)

lemma literalFrom_suffix (h : literalFrom cs = some (content, rest)) : rest <:+ cs := by
  unfold literalFrom at h
  dsimp only at h
  split at h
  · next heq =>
    cases h
    exact (List.suffix_cons _ _).trans (heq ▸ List.dropWhile_suffix _)
  · cases h

lemma lineString?_suffix : LeavesEnd lineString? := by
  intro cs content rest h
  unfold lineString? at h
  split at h
  · exact suffix_cons_of (basicFrom_suffix h)
  · exact suffix_cons_of (literalFrom_suffix h)
  · cases h

lemma string?_suffix : LeavesEnd Toml.string? := by
  have hopening : ∀ cs : List Char, (newline? cs).getD cs <:+ cs := by
    intro cs
    cases hline : newline? cs with
    | none => exact List.suffix_rfl
    | some rest => exact newline?_suffix hline
  intro cs content rest h
  unfold Toml.string? at h
  split at h
  · exact ((multilineBasicFrom_suffix h).trans (hopening _)).trans (List.suffix_append [_, _, _] _)
  · exact ((multilineLiteralFrom_suffix h).trans (hopening _)).trans (List.suffix_append [_, _, _] _)
  · exact lineString?_suffix _ _ _ h

end Strings

/-! ### Numbers and dates -/

section Numbers

variable {cs rest done whole : List Char} {base : Nat} {negative : Bool} {x : Number}

lemma digitsFrom_suffix (base : Nat) (done cs : List Char) : (digitsFrom base done cs).2 <:+ cs := by
  fun_induction digitsFrom base done cs with
  | case1 done c cs _ ih => exact suffix_cons_of (suffix_cons_of ih)
  | case2 => exact List.suffix_rfl
  | case3 done c cs _ _ ih => exact suffix_cons_of ih
  | case4 => exact List.suffix_rfl
  | case5 => exact List.suffix_rfl

lemma digits?_suffix : LeavesEnd (digits? base) := by
  intro cs ds rest h
  unfold digits? at h
  split at h
  · obtain ⟨-, heq⟩ := Option.ite_none_right_eq_some.1 h
    have hrest := congrArg Prod.snd (Option.some.inj heq)
    rw [← show _ = rest from hrest]
    exact suffix_cons_of (digitsFrom_suffix _ _ _)
  · cases h

lemma wholeDigits?_suffix : LeavesEnd wholeDigits? := by
  intro cs ds rest h
  unfold wholeDigits? at h
  split at h
  · cases h
    exact List.suffix_cons _ _
  · exact digits?_suffix _ _ _ h

lemma sign_suffix (cs : List Char) : (sign cs).2 <:+ cs := by
  unfold sign
  split
  · exact List.suffix_cons _ _
  · exact List.suffix_cons _ _
  · exact List.suffix_rfl

lemma exponent?_suffix : LeavesEnd exponent? := by
  intro cs n rest h
  unfold exponent? at h
  split at h
  · next c cs =>
    split at h
    · obtain ⟨⟨ds, stop⟩, hds, heq⟩ := Option.map_eq_some_iff.1 h
      cases heq
      exact suffix_cons_of ((digits?_suffix _ _ _ hds).trans (sign_suffix cs))
    · cases h
      exact List.suffix_rfl
  · cases h
    exact List.suffix_rfl

lemma fraction?_suffix : LeavesEnd fraction? := by
  intro cs ds rest h
  unfold fraction? at h
  split at h
  · exact suffix_cons_of (digits?_suffix _ _ _ h)
  · cases h
    exact List.suffix_rfl

lemma integer?_rest {ds stop : List Char} (h : integer? negative base ds stop = some (x, rest)) :
    rest = stop := by
  unfold integer? at h
  split at h
  all_goals
    obtain ⟨n, -, heq⟩ := Option.map_eq_some_iff.1 h
    cases heq
    rfl

lemma prefixed?_suffix (h : prefixed? base cs = some (x, rest)) : rest <:+ cs := by
  obtain ⟨⟨ds, stop⟩, hds, h⟩ := Option.bind_eq_some_iff.1 h
  rw [integer?_rest h]
  exact digits?_suffix _ _ _ hds

lemma float?_suffix (h : float? negative whole cs = some (x, rest)) : rest <:+ cs := by
  obtain ⟨⟨fraction, cs₁⟩, hfraction, h⟩ := Option.bind_eq_some_iff.1 h
  obtain ⟨⟨exponent, stop⟩, hexponent, h⟩ := Option.bind_eq_some_iff.1 h
  have hstop := (exponent?_suffix _ _ _ hexponent).trans (fraction?_suffix _ _ _ hfraction)
  dsimp only at h
  split at h
  · cases h
  · cases h
    exact hstop

lemma unsigned?_suffix (h : unsigned? negative cs = some (x, rest)) : rest <:+ cs := by
  obtain ⟨⟨ds, stop⟩, hds, h⟩ := Option.bind_eq_some_iff.1 h
  have hstop := wholeDigits?_suffix _ _ _ hds
  dsimp only at h
  split at h
  · exact (float?_suffix h).trans hstop
  · rwa [integer?_rest h]

lemma number?_suffix : LeavesEnd number? := by
  intro cs x rest h
  unfold number? at h
  split at h
  · exact (prefixed?_suffix h).trans (List.suffix_append [_, _] _)
  · exact (prefixed?_suffix h).trans (List.suffix_append [_, _] _)
  · exact (prefixed?_suffix h).trans (List.suffix_append [_, _] _)
  · have hsign := sign_suffix cs
    dsimp only at h
    split at h
    · next heq =>
      cases h
      rw [heq] at hsign
      exact (List.suffix_append [_, _, _] _).trans hsign
    · next heq =>
      cases h
      rw [heq] at hsign
      exact (List.suffix_append [_, _, _] _).trans hsign
    · exact (unsigned?_suffix h).trans hsign

end Numbers

section Moments

variable {cs rest : List Char} {width least greatest : Nat}

lemma literal?_suffix {ls : List Char} (h : Reader.literal? ls cs = some rest) : rest <:+ cs :=
  ⟨ls, (Reader.literal?_eq_some_iff.1 h).symm⟩

lemma field?_suffix : LeavesEnd (field? width least greatest) := by
  intro cs n rest h
  obtain ⟨-, heq⟩ := Option.ite_none_right_eq_some.1 h
  cases heq
  exact List.drop_suffix _ _

lemma date?_suffix (h : date? cs = some rest) : rest <:+ cs := by
  obtain ⟨⟨year, cs₁⟩, hyear, h⟩ := Option.bind_eq_some_iff.1 h
  obtain ⟨cs₂, hmark, h⟩ := Option.bind_eq_some_iff.1 h
  obtain ⟨⟨month, cs₃⟩, hmonth, h⟩ := Option.bind_eq_some_iff.1 h
  obtain ⟨cs₄, hmark', h⟩ := Option.bind_eq_some_iff.1 h
  obtain ⟨⟨day, cs₅⟩, hday, h⟩ := Option.bind_eq_some_iff.1 h
  cases h
  calc rest <:+ cs₄ := field?_suffix _ _ _ hday
    _ <:+ cs₃ := literal?_suffix hmark'
    _ <:+ cs₂ := field?_suffix _ _ _ hmonth
    _ <:+ cs₁ := literal?_suffix hmark
    _ <:+ cs := field?_suffix _ _ _ hyear

lemma time?_suffix (h : time? cs = some rest) : rest <:+ cs := by
  obtain ⟨⟨hour, cs₁⟩, hhour, h⟩ := Option.bind_eq_some_iff.1 h
  obtain ⟨cs₂, hmark, h⟩ := Option.bind_eq_some_iff.1 h
  obtain ⟨⟨minute, cs₃⟩, hminute, h⟩ := Option.bind_eq_some_iff.1 h
  obtain ⟨cs₄, hmark', h⟩ := Option.bind_eq_some_iff.1 h
  obtain ⟨⟨second, cs₅⟩, hsecond, h⟩ := Option.bind_eq_some_iff.1 h
  have hsecond' : cs₅ <:+ cs := calc
    cs₅ <:+ cs₄ := field?_suffix _ _ _ hsecond
    _ <:+ cs₃ := literal?_suffix hmark'
    _ <:+ cs₂ := field?_suffix _ _ _ hminute
    _ <:+ cs₁ := literal?_suffix hmark
    _ <:+ cs := field?_suffix _ _ _ hhour
  refine List.IsSuffix.trans ?_ hsecond'
  dsimp only at h
  split at h
  · next fraction =>
    split at h
    · cases h
      exact List.suffix_rfl
    · next hrun =>
      cases h
      have hrest : (Digits.run 10 fraction).2 = rest := congrArg Prod.snd hrun
      rw [← hrest]
      exact suffix_cons_of (List.dropWhile_suffix _)
  · cases h
    exact List.suffix_rfl

lemma offset?_suffix (h : offset? cs = some rest) : rest <:+ cs := by
  unfold offset? at h
  split at h
  · cases h
    exact List.suffix_cons _ _
  · cases h
    exact List.suffix_cons _ _
  · split at h
    · obtain ⟨⟨hour, cs₁⟩, hhour, h⟩ := Option.bind_eq_some_iff.1 h
      obtain ⟨cs₂, hmark, h⟩ := Option.bind_eq_some_iff.1 h
      obtain ⟨⟨minute, cs₃⟩, hminute, h⟩ := Option.bind_eq_some_iff.1 h
      cases h
      apply suffix_cons_of
      calc rest <:+ cs₂ := field?_suffix _ _ _ hminute
        _ <:+ cs₁ := literal?_suffix hmark
        _ <:+ _ := field?_suffix _ _ _ hhour
    · cases h
  · cases h

lemma moment?_suffix (h : moment? cs = some rest) : rest <:+ cs := by
  unfold moment? at h
  split at h
  · exact time?_suffix h
  · cases h
    exact List.nil_suffix
  · next c cs₁ hdate =>
    have hday := date?_suffix hdate
    split at h
    · split at h
      · next stop htime =>
        cases h
        have hoffset : (offset? stop).getD stop <:+ stop := by
          cases hoffset : offset? stop with
          | none => exact List.suffix_rfl
          | some rest => exact offset?_suffix hoffset
        exact ((hoffset.trans (time?_suffix htime)).trans (List.suffix_cons c cs₁)).trans hday
      · cases h
        exact hday
    · cases h
      exact hday

end Moments

/-! ### Values without parts -/

lemma scalar?_suffix : LeavesEnd scalar? := by
  intro cs s rest h
  unfold scalar? at h
  split at h
  · cases h
    exact List.suffix_append [_, _, _, _] _
  · cases h
    exact List.suffix_append [_, _, _, _, _] _
  · obtain ⟨⟨content, stop⟩, hstring, heq⟩ := Option.map_eq_some_iff.1 h
    cases heq
    exact string?_suffix _ _ _ hstring
  · obtain ⟨⟨content, stop⟩, hstring, heq⟩ := Option.map_eq_some_iff.1 h
    cases heq
    exact string?_suffix _ _ _ hstring
  · split at h
    · next hmoment =>
      cases h
      exact moment?_suffix hmoment
    · obtain ⟨⟨x, stop⟩, hnumber, heq⟩ := Option.map_eq_some_iff.1 h
      cases x <;> cases heq <;> exact number?_suffix _ _ _ hnumber

end MemberRelay.Proofs
