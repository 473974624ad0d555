import MemberRelay.Proofs.Toml.Rests
import MemberRelay.Proofs.Toml.Spelling

/-!
# What readers leave unread

A reader that stops in front of a tail takes the same piece whatever the tail is, if it starts with a
character without a meaning of its own. Here this is shown for strings, blanks, comments, the ends of
lines and the parts of keys.
-/

namespace MemberRelay.Proofs
open Toml

/-- The characters with a meaning of their own around values. -/
def specials : List Char :=
  [' ', '\t', '\n', '\r', '#', '"', '\'', ',', '[', ']', '\x7b', '\x7d']

/-- A text that starts with a character without a meaning of its own. -/
def Bare (cs : List Char) : Prop := ∃ c rest, cs = c :: rest ∧ isText c ∧ c ∉ specials

lemma Bare.head?_ne {cs : List Char} {c : Char} (h : Bare cs) (hc : c ∈ specials) :
    cs.head? ≠ some c := by
  obtain ⟨d, rest, rfl, -, hd⟩ := h
  rintro heq
  rw [← Option.some.inj heq] at hc
  exact hd hc

/-! ### Strings -/

section Strings

variable {c q : Char} {cs u w y z done content : List Char}

/-- What is left of the tail shows that the head belongs to the piece. -/
lemma eq_cons_of_leaves (h : u ++ y = c :: cs) (hleaves : w ++ y <:+ cs) :
    ∃ u', u = c :: u' ∧ cs = u' ++ y := by
  cases u with
  | nil =>
    have hlength := hleaves.length_le
    rw [List.nil_append] at h
    rw [h, List.length_append, List.length_cons] at hlength
    omega
  | cons d u =>
    obtain ⟨rfl, rfl⟩ := List.cons.inj h
    exact ⟨u, rfl, rfl⟩

/-- A run that ends before `y` is the same whatever stands there. -/
lemma dropWhile_before {p : Char → Bool} (h : (u ++ y).dropWhile p = c :: (w ++ y)) :
    (u ++ z).dropWhile p = c :: (w ++ z) ∧ (u ++ z).takeWhile p = (u ++ y).takeWhile p := by
  induction u with
  | nil =>
    have hlength := (List.dropWhile_suffix p (l := y)).length_le
    rw [List.nil_append] at h
    rw [h, List.length_cons, List.length_append] at hlength
    omega
  | cons d u ih =>
    by_cases hd : p d = true
    · have hrest : (u ++ y).dropWhile p = c :: (w ++ y) := by simpa [hd] using h
      obtain ⟨hdrop, htake⟩ := ih hrest
      simp [hd, hdrop, htake]
    · have hsame : d :: (u ++ y) = c :: (w ++ y) := by simpa [hd] using h
      obtain ⟨rfl, hw⟩ := List.cons.inj hsame
      obtain rfl : u = w := List.append_cancel_right hw
      simp [hd]

lemma escaped?_before (h : escaped? (u ++ y) = some (c, w ++ y)) :
    escaped? (u ++ z) = some (c, w ++ z) := by
  generalize hcs : u ++ y = cs at h
  unfold escaped? at h
  split at h
  · next a b d e stop =>
    obtain ⟨_, hpoint, heq⟩ := Option.map_eq_some_iff.1 h
    obtain ⟨rfl, rfl⟩ := Prod.mk.inj heq
    obtain rfl : u = 'u' :: a :: b :: d :: e :: w := List.append_cancel_right hcs
    simp [escaped?, hpoint]
  · next a b d e f g i j stop =>
    obtain ⟨_, hpoint, heq⟩ := Option.map_eq_some_iff.1 h
    obtain ⟨rfl, rfl⟩ := Prod.mk.inj heq
    obtain rfl : u = 'U' :: a :: b :: d :: e :: f :: g :: i :: j :: w := List.append_cancel_right hcs
    simp [escaped?, hpoint]
  · next l stop hfour height =>
    obtain ⟨_, hshort, heq⟩ := Option.map_eq_some_iff.1 h
    obtain ⟨rfl, rfl⟩ := Prod.mk.inj heq
    obtain rfl : u = l :: w := List.append_cancel_right hcs
    have hu : l ≠ 'u' := by
      rintro rfl
      cases hshort
    have hU : l ≠ 'U' := by
      rintro rfl
      cases hshort
    simp [escaped?, hshort, hu, hU]
  · cases h

/-- A string on one line ends at its quote, whatever follows. -/
lemma basicFrom_before (h : basicFrom done (u ++ y) = some (content, w ++ y)) :
    basicFrom done (u ++ z) = some (content, w ++ z) := by
  generalize hcs : u ++ y = cs at h
  fun_induction basicFrom done cs generalizing u with
  | case1 | case3 | case6 => cases h
  | case2 done cs =>
    obtain ⟨rfl, rfl⟩ := Prod.mk.inj (Option.some.inj h)
    obtain rfl : u = '"' :: w := List.append_cancel_right hcs
    rw [List.cons_append, basicFrom]
  | case4 done cs c stop hescaped ih =>
    have hstop := basicFrom_suffix h
    obtain ⟨u, rfl, rfl⟩ := eq_cons_of_leaves hcs (hstop.trans (escaped?_suffix _ _ _ hescaped))
    obtain ⟨r, rfl⟩ := (List.suffix_append w y).trans hstop
    rw [List.cons_append, basicFrom_escape (escaped?_before hescaped)]
    exact ih rfl h
  | case5 done c cs hquote hslash htext ih =>
    obtain ⟨u, rfl, rfl⟩ := eq_cons_of_leaves hcs (basicFrom_suffix h)
    have hnext := ih rfl h
    rw [List.cons_append]
    simpa [basicFrom, htext] using hnext

lemma literalFrom_before (h : literalFrom (u ++ y) = some (content, w ++ y)) :
    literalFrom (u ++ z) = some (content, w ++ z) := by
  unfold literalFrom at h ⊢
  dsimp only at h ⊢
  split at h
  · next rest hdrop =>
    obtain ⟨rfl, rfl⟩ := Prod.mk.inj (Option.some.inj h)
    obtain ⟨hdrop', htake⟩ := dropWhile_before (z := z) hdrop
    rw [htake]
    split
    · next rest heq =>
      rw [hdrop'] at heq
      cases heq
      rfl
    · next hnone => exact absurd hdrop' (hnone _)
  · cases h

lemma lineString?_before (h : lineString? (u ++ y) = some (content, w ++ y)) :
    lineString? (u ++ z) = some (content, w ++ z) := by
  generalize hcs : u ++ y = cs at h
  unfold lineString? at h
  split at h
  · obtain ⟨u, rfl, rfl⟩ := eq_cons_of_leaves hcs (basicFrom_suffix h)
    exact basicFrom_before h
  · obtain ⟨u, rfl, rfl⟩ := eq_cons_of_leaves hcs (literalFrom_suffix h)
    exact literalFrom_before h
  · cases h

lemma skipBreaks_before (hy : Bare z) (h : skipBreaks (u ++ y) = c :: (w ++ y)) :
    skipBreaks (u ++ z) = c :: (w ++ z) := by
  generalize hcs : u ++ y = cs at h
  have hsuffix : ∀ cs, skipBreaks cs = c :: (w ++ y) → (c :: w) ++ y <:+ cs := by
    intro cs hskip
    have hskip' := skipBreaks_suffix cs
    rwa [hskip] at hskip'
  fun_induction skipBreaks cs generalizing u with
  | case1 => cases h
  | case2 cs ih =>
    obtain ⟨u, rfl, rfl⟩ := eq_cons_of_leaves hcs (hsuffix cs h)
    rw [List.cons_append, skipBreaks]
    exact ih rfl h
  | case3 cs ih =>
    obtain ⟨u, rfl, hu⟩ := eq_cons_of_leaves hcs (suffix_cons_of (hsuffix cs h))
    obtain ⟨u, rfl, rfl⟩ := eq_cons_of_leaves hu.symm (hsuffix cs h)
    rw [List.cons_append, List.cons_append, skipBreaks]
    exact ih rfl h
  | case4 d cs hfeed hreturn hblank ih =>
    obtain ⟨u, rfl, rfl⟩ := eq_cons_of_leaves hcs (hsuffix cs h)
    have hnext := ih rfl h
    have hd : d ≠ '\n' ∧ d ≠ '\r' := by
      constructor <;> (rintro rfl; cases hblank)
    simpa [skipBreaks, hblank, hd] using hnext
  | case5 d cs hfeed hreturn hblank =>
    obtain ⟨rfl, rfl⟩ := List.cons.inj h
    obtain rfl : u = d :: w := List.append_cancel_right hcs
    have hreturn' : ∀ tail, d = '\r' → w ++ z ≠ '\n' :: tail := by
      rintro tail rfl htail
      cases w with
      | nil => exact hy.head?_ne (by decide) (congrArg List.head? htail)
      | cons e w =>
        obtain ⟨rfl, -⟩ := List.cons.inj htail
        exact hreturn _ rfl rfl
    simp [skipBreaks, hblank]

lemma foldedLine?_of_escaped? (h : escaped? cs = some (c, w)) : foldedLine? cs = none := by
  have hstart : ∀ d, d = 'u' ∨ d = 'U' ∨ (∃ e, shortEscape? d = some e) →
      isBlank d = false ∧ d ≠ '\n' ∧ d ≠ '\r' := by
    rintro d (rfl | rfl | ⟨e, he⟩)
    · decide
    · decide
    · refine ⟨?_, ?_, ?_⟩
      · by_contra hblank
        simp only [isBlank, Bool.not_eq_false, Bool.or_eq_true, decide_eq_true_eq] at hblank
        rcases hblank with rfl | rfl <;> cases he
      · rintro rfl
        cases he
      · rintro rfl
        cases he
  have hnone : ∀ d cs, isBlank d = false ∧ d ≠ '\n' ∧ d ≠ '\r' → foldedLine? (d :: cs) = none := by
    rintro d cs ⟨hblank, hfeed, hreturn⟩
    simp [foldedLine?, skipBlanks, hblank, newline?, hfeed, hreturn]
  unfold escaped? at h
  split at h
  · exact hnone _ _ (hstart _ (.inl rfl))
  · exact hnone _ _ (hstart _ (.inr (.inl rfl)))
  · obtain ⟨e, he, -⟩ := Option.map_eq_some_iff.1 h
    exact hnone _ _ (hstart _ (.inr (.inr ⟨e, he⟩)))
  · cases h

lemma foldedLine?_before (hy : Bare z)
    (h : foldedLine? (u ++ y) = some (c :: (w ++ y))) :
    foldedLine? (u ++ z) = some (c :: (w ++ z)) := by
  obtain ⟨stop, hstop, hbreaks⟩ := Option.map_eq_some_iff.1 h
  have hsuffix := skipBreaks_suffix stop
  rw [hbreaks] at hsuffix
  obtain ⟨r, rfl⟩ := ((List.suffix_append w y).trans (List.suffix_cons c _)).trans hsuffix
  have hnext := skipBreaks_before hy hbreaks
  rw [foldedLine?]
  unfold newline? at hstop
  split at hstop
  · next heq =>
    cases hstop
    rw [skipBlanks, (dropWhile_before heq).1, newline?, Option.map_some, hnext]
  · next heq =>
    cases hstop
    rw [skipBlanks, (dropWhile_before (w := '\n' :: r) heq).1]
    simp [newline?, hnext]
  · cases hstop

lemma not_cons_before (hy : z.head? ≠ some q) (h : ∀ t, u ++ y = q :: t → False) (t : List Char) :
    u ++ z = q :: t → False := by
  intro ht
  cases u with
  | nil => exact hy (congrArg List.head? ht)
  | cons e u =>
    obtain ⟨rfl, -⟩ := List.cons.inj ht
    exact h _ rfl

lemma not_two_before (hy : z.head? ≠ some q) (h : ∀ t, u ++ y = q :: q :: t → False)
    (t : List Char) : u ++ z = q :: q :: t → False := by
  intro ht
  cases u with
  | nil => exact hy (congrArg List.head? ht)
  | cons e u =>
    obtain ⟨rfl, ht⟩ := List.cons.inj ht
    exact not_cons_before hy (fun t ht => h t (congrArg _ ht)) _ ht

lemma multilineBasicFrom_escape (h : escaped? cs = some (c, w)) :
    multilineBasicFrom done ('\\' :: cs) = multilineBasicFrom (c :: done) w := by
  have hfolded := foldedLine?_of_escaped? h
  rw [multilineBasicFrom]
  split
  · next hsome =>
    rw [hfolded] at hsome
    cases hsome
  · split
    · next hnone =>
      rw [h] at hnone
      cases hnone
    · next hsome =>
      rw [h] at hsome
      cases hsome
      rfl

lemma multilineBasicFrom_fold (h : foldedLine? cs = some w) :
    multilineBasicFrom done ('\\' :: cs) = multilineBasicFrom done w := by
  rw [multilineBasicFrom]
  split
  · next hsome =>
    rw [h] at hsome
    cases hsome
    rfl
  · next hnone =>
    rw [h] at hnone
    cases hnone

lemma length_multilineBasicFrom_lt (h : multilineBasicFrom done cs = some (content, w)) :
    w.length < cs.length := by
  fun_induction multilineBasicFrom done cs with
  | case1 | case6 | case11 => cases h
  | case2 | case3 | case4 =>
    cases h
    simp only [List.length_cons]
    omega
  | case5 done cs stop hfolded ih =>
    exact Nat.lt_succ_of_lt ((ih h).trans (length_foldedLine?_lt hfolded))
  | case7 done cs hfolded c stop hescaped ih =>
    exact Nat.lt_succ_of_lt ((ih h).trans (length_escaped?_lt hescaped))
  | case8 done cs ih => exact Nat.lt_succ_of_lt (ih h)
  | case9 done cs ih => exact Nat.lt_succ_of_lt (Nat.lt_succ_of_lt (ih h))
  | case10 done c cs _ _ _ _ _ _ _ ih => exact Nat.lt_succ_of_lt (ih h)

lemma not_three_before (hy : z.head? ≠ some q) (h : ∀ t, u ++ y = q :: q :: q :: t → False)
    (t : List Char) : u ++ z = q :: q :: q :: t → False := by
  intro ht
  cases u with
  | nil => exact hy (congrArg List.head? ht)
  | cons e u =>
    obtain ⟨rfl, ht⟩ := List.cons.inj ht
    exact not_two_before hy (fun t ht => h t (congrArg _ ht)) _ ht

/-- A string on several lines ends at three quotes with no further one behind them. -/
lemma multilineBasicFrom_before (hy : Bare z)
    (h : multilineBasicFrom done (u ++ y) = some (content, w ++ y)) :
    multilineBasicFrom done (u ++ z) = some (content, w ++ z) := by
  have hquote : z.head? ≠ some '"' := hy.head?_ne (by decide)
  generalize hcs : u ++ y = cs at h
  fun_induction multilineBasicFrom done cs generalizing u with
  | case1 | case6 | case11 => cases h
  | case2 done cs =>
    obtain ⟨rfl, rfl⟩ := Prod.mk.inj (Option.some.inj h)
    obtain rfl : u = '"' :: '"' :: '"' :: '"' :: '"' :: w := List.append_cancel_right hcs
    simp [multilineBasicFrom]
  | case3 done cs hfive =>
    obtain ⟨rfl, rfl⟩ := Prod.mk.inj (Option.some.inj h)
    obtain rfl : u = '"' :: '"' :: '"' :: '"' :: w := List.append_cancel_right hcs
    have hfive' := not_cons_before hquote hfive
    simp [multilineBasicFrom]
  | case4 done cs hfive hfour =>
    obtain ⟨rfl, rfl⟩ := Prod.mk.inj (Option.some.inj h)
    obtain rfl : u = '"' :: '"' :: '"' :: w := List.append_cancel_right hcs
    have hfour' := not_cons_before hquote hfour
    have hfive' := not_two_before hquote hfive
    simp [multilineBasicFrom]
  | case5 done cs stop hfolded ih =>
    have hstop := multilineBasicFrom_suffix h
    obtain ⟨u, rfl, rfl⟩ := eq_cons_of_leaves hcs (hstop.trans (foldedLine?_suffix hfolded))
    obtain ⟨r, rfl⟩ := (List.suffix_append w y).trans hstop
    have hnext := ih rfl h
    cases r with
    | nil =>
      have hlength := length_multilineBasicFrom_lt h
      rw [List.nil_append, List.length_append] at hlength
      omega
    | cons c r =>
      rw [List.cons_append, multilineBasicFrom_fold (foldedLine?_before hy hfolded)]
      exact hnext
  | case7 done cs hfolded c stop hescaped ih =>
    have hstop := multilineBasicFrom_suffix h
    obtain ⟨u, rfl, rfl⟩ := eq_cons_of_leaves hcs (hstop.trans (escaped?_suffix _ _ _ hescaped))
    obtain ⟨r, rfl⟩ := (List.suffix_append w y).trans hstop
    rw [List.cons_append, multilineBasicFrom_escape (escaped?_before hescaped)]
    exact ih rfl h
  | case8 done cs ih =>
    obtain ⟨u, rfl, rfl⟩ := eq_cons_of_leaves hcs (multilineBasicFrom_suffix h)
    have hnext := ih rfl h
    simpa [multilineBasicFrom] using hnext
  | case9 done cs ih =>
    have hsuffix := multilineBasicFrom_suffix h
    obtain ⟨u, rfl, hu⟩ := eq_cons_of_leaves hcs (suffix_cons_of hsuffix)
    obtain ⟨u, rfl, rfl⟩ := eq_cons_of_leaves hu.symm hsuffix
    have hnext := ih rfl h
    simpa [multilineBasicFrom] using hnext
  | case10 done c cs hfive hfour hthree hslash hline hreturn htext ih =>
    obtain ⟨u, rfl, rfl⟩ := eq_cons_of_leaves hcs (multilineBasicFrom_suffix h)
    have hnext := ih rfl h
    have hreturn' : c ≠ '\r' := by
      rintro rfl
      cases htext
    have hthree' : ∀ t, c = '"' → u ++ z = '"' :: '"' :: t → False := by
      rintro t rfl
      exact not_two_before hquote (fun t => hthree t rfl) t
    have hfour' : ∀ t, c = '"' → u ++ z = '"' :: '"' :: '"' :: t → False := fun t => hthree' _
    have hfive' : ∀ t, c = '"' → u ++ z = '"' :: '"' :: '"' :: '"' :: t → False := fun t => hthree' _
    simp [multilineBasicFrom, hreturn', htext, hnext]

lemma multilineLiteralFrom_before (hy : Bare z)
    (h : multilineLiteralFrom done (u ++ y) = some (content, w ++ y)) :
    multilineLiteralFrom done (u ++ z) = some (content, w ++ z) := by
  have hquote : z.head? ≠ some '\'' := hy.head?_ne (by decide)
  generalize hcs : u ++ y = cs at h
  fun_induction multilineLiteralFrom done cs generalizing u with
  | case1 | case8 => cases h
  | case2 done cs =>
    obtain ⟨rfl, rfl⟩ := Prod.mk.inj (Option.some.inj h)
    obtain rfl : u = '\'' :: '\'' :: '\'' :: '\'' :: '\'' :: w := List.append_cancel_right hcs
    simp [multilineLiteralFrom]
  | case3 done cs hfive =>
    obtain ⟨rfl, rfl⟩ := Prod.mk.inj (Option.some.inj h)
    obtain rfl : u = '\'' :: '\'' :: '\'' :: '\'' :: w := List.append_cancel_right hcs
    have hfive' := not_cons_before hquote hfive
    simp [multilineLiteralFrom]
  | case4 done cs hfive hfour =>
    obtain ⟨rfl, rfl⟩ := Prod.mk.inj (Option.some.inj h)
    obtain rfl : u = '\'' :: '\'' :: '\'' :: w := List.append_cancel_right hcs
    have hfour' := not_cons_before hquote hfour
    have hfive' := not_two_before hquote hfive
    simp [multilineLiteralFrom]
  | case5 done cs ih =>
    obtain ⟨u, rfl, rfl⟩ := eq_cons_of_leaves hcs (multilineLiteralFrom_suffix h)
    have hnext := ih rfl h
    simpa [multilineLiteralFrom] using hnext
  | case6 done cs ih =>
    have hsuffix := multilineLiteralFrom_suffix h
    obtain ⟨u, rfl, hu⟩ := eq_cons_of_leaves hcs (suffix_cons_of hsuffix)
    obtain ⟨u, rfl, rfl⟩ := eq_cons_of_leaves hu.symm hsuffix
    have hnext := ih rfl h
    simpa [multilineLiteralFrom] using hnext
  | case7 done c cs hfive hfour hthree hline hreturn htext ih =>
    obtain ⟨u, rfl, rfl⟩ := eq_cons_of_leaves hcs (multilineLiteralFrom_suffix h)
    have hnext := ih rfl h
    have hreturn' : c ≠ '\r' := by
      rintro rfl
      cases htext
    have hthree' : ∀ t, c = '\'' → u ++ z = '\'' :: '\'' :: t → False := by
      rintro t rfl
      exact not_two_before hquote (fun t => hthree t rfl) t
    have hfour' : ∀ t, c = '\'' → u ++ z = '\'' :: '\'' :: '\'' :: t → False := fun t => hthree' _
    have hfive' : ∀ t, c = '\'' → u ++ z = '\'' :: '\'' :: '\'' :: '\'' :: t → False :=
      fun t => hthree' _
    simp [multilineLiteralFrom, hreturn', htext, hnext]

/-- The line end after the opening quotes. -/
lemma opening_before (hy : Bare z) (hw : w ++ y <:+ (newline? (u ++ y)).getD (u ++ y)) :
    ∃ u', (newline? (u ++ y)).getD (u ++ y) = u' ++ y ∧
      (newline? (u ++ z)).getD (u ++ z) = u' ++ z := by
  generalize hcs : u ++ y = cs at hw ⊢
  unfold newline? at hw ⊢
  split at hw
  · obtain ⟨u', rfl, rfl⟩ := eq_cons_of_leaves hcs hw
    exact ⟨u', rfl, rfl⟩
  · obtain ⟨u', rfl, hu⟩ := eq_cons_of_leaves hcs (suffix_cons_of hw)
    obtain ⟨u', rfl, rfl⟩ := eq_cons_of_leaves hu.symm hw
    exact ⟨u', rfl, rfl⟩
  · next hfeed hreturn =>
    subst hcs
    refine ⟨u, rfl, ?_⟩
    split
    · next heq => exact absurd heq (not_cons_before (hy.head?_ne (by decide)) hfeed _)
    · next stop heq =>
      cases u with
      | nil => exact absurd (congrArg List.head? heq) (hy.head?_ne (by decide))
      | cons c u =>
        obtain ⟨rfl, htail⟩ := List.cons.inj heq
        have hline : ∀ t, u ++ y = '\n' :: t → False := fun t ht => hreturn t (congrArg _ ht)
        exact absurd htail (not_cons_before (hy.head?_ne (by decide)) hline _)
    · rfl

lemma string?_before (hy : Bare z) (h : Toml.string? (u ++ y) = some (content, w ++ y)) :
    Toml.string? (u ++ z) = some (content, w ++ z) := by
  have hopening : ∀ cs : List Char, (newline? cs).getD cs <:+ cs := by
    intro cs
    cases hline : newline? cs with
    | none => exact List.suffix_rfl
    | some rest => exact newline?_suffix hline
  generalize hcs : u ++ y = cs at h
  unfold Toml.string? at h
  split at h
  · have hbody := multilineBasicFrom_suffix h
    have hsuffix := hbody.trans (hopening _)
    obtain ⟨u, rfl, hu⟩ := eq_cons_of_leaves hcs (suffix_cons_of (suffix_cons_of hsuffix))
    obtain ⟨u, rfl, htwo⟩ := eq_cons_of_leaves hu.symm (suffix_cons_of hsuffix)
    obtain ⟨u, rfl, rfl⟩ := eq_cons_of_leaves htwo.symm hsuffix
    obtain ⟨u', hbefore, hbefore'⟩ := opening_before hy hbody
    rw [hbefore] at h
    rw [List.cons_append, List.cons_append, List.cons_append, Toml.string?, hbefore']
    exact multilineBasicFrom_before hy h
  · have hbody := multilineLiteralFrom_suffix h
    have hsuffix := hbody.trans (hopening _)
    obtain ⟨u, rfl, hu⟩ := eq_cons_of_leaves hcs (suffix_cons_of (suffix_cons_of hsuffix))
    obtain ⟨u, rfl, htwo⟩ := eq_cons_of_leaves hu.symm (suffix_cons_of hsuffix)
    obtain ⟨u, rfl, rfl⟩ := eq_cons_of_leaves htwo.symm hsuffix
    obtain ⟨u', hbefore, hbefore'⟩ := opening_before hy hbody
    rw [hbefore] at h
    rw [List.cons_append, List.cons_append, List.cons_append, Toml.string?, hbefore']
    exact multilineLiteralFrom_before hy h
  · next hdouble hsingle =>
    subst hcs
    have hdouble' := not_three_before (hy.head?_ne (by decide)) hdouble
    have hsingle' := not_three_before (hy.head?_ne (by decide)) hsingle
    rw [← lineString?_before (z := z) h]
    unfold Toml.string?
    split
    · next heq => exact absurd heq (hdouble' _)
    · next heq => exact absurd heq (hsingle' _)
    · rfl

end Strings

/-! ### Blanks, line ends and comments -/

section Trivia

variable {c : Char} {cs u w y z : List Char} {b : Bool}

lemma Bare.ne_nil (h : Bare y) : y ≠ [] := by
  obtain ⟨c, rest, rfl, -⟩ := h
  exact List.cons_ne_nil _ _

lemma Bare.isBlank_head (h : Bare (c :: cs)) : isBlank c = false := by
  have hspace := h.head?_ne (c := ' ') (by decide)
  have htab := h.head?_ne (c := '\t') (by decide)
  simp only [List.head?_cons, ne_eq, Option.some.injEq] at hspace htab
  simp [isBlank, hspace, htab]

lemma Bare.skipBlanks_eq (h : Bare y) : skipBlanks y = y := by
  obtain ⟨c, rest, rfl, -⟩ := id h
  rw [skipBlanks, List.dropWhile_cons_of_neg (by simp [h.isBlank_head])]

lemma skipBlanks_before (hy : Bare y) : skipBlanks (u ++ y) = skipBlanks u ++ y := by
  induction u with
  | nil => exact hy.skipBlanks_eq
  | cons c u ih =>
    by_cases hc : isBlank c = true
    · simpa [skipBlanks, hc] using ih
    · simp [skipBlanks, hc]

lemma skipFiller_bare (h : Bare y) : skipFiller false y = y := by
  obtain ⟨c, rest, rfl, -⟩ := id h
  have hne : ∀ d ∈ specials, c ≠ d := fun d hd heq => h.head?_ne hd (congrArg some heq)
  have hfeed := hne '\n' (by decide)
  have hreturn := hne '\r' (by decide)
  have hnote := hne '#' (by decide)
  simp [skipFiller, hreturn, hnote, h.isBlank_head]

lemma skipFiller_before (hy : Bare y) (hy' : Bare z) (h : skipFiller b (u ++ y) = w ++ y) :
    skipFiller b (u ++ z) = w ++ z := by
  have hsuffix : ∀ b cs, skipFiller b cs = w ++ y → w ++ y <:+ cs := by
    intro b cs hskip
    rw [← hskip]
    exact skipFiller_suffix b cs
  generalize hcs : u ++ y = cs at h
  fun_induction skipFiller b cs generalizing u with
  | case1 => exact absurd (List.append_eq_nil_iff.1 hcs).2 hy.ne_nil
  | case2 b cs ih =>
    obtain ⟨u, rfl, rfl⟩ := eq_cons_of_leaves hcs (hsuffix _ _ h)
    rw [List.cons_append, skipFiller]
    exact ih rfl h
  | case3 b cs ih =>
    obtain ⟨u, rfl, hu⟩ := eq_cons_of_leaves hcs (suffix_cons_of (hsuffix _ _ h))
    obtain ⟨u, rfl, rfl⟩ := eq_cons_of_leaves hu.symm (hsuffix _ _ h)
    rw [List.cons_append, List.cons_append, skipFiller]
    exact ih rfl h
  | case4 c cs hfeed hreturn htext ih =>
    obtain ⟨u, rfl, rfl⟩ := eq_cons_of_leaves hcs (hsuffix _ _ h)
    have hnext := ih rfl h
    have hc : c ≠ '\r' := by
      rintro rfl
      cases htext
    simpa [skipFiller, htext, hc] using hnext
  | case5 c cs hfeed hreturn htext =>
    obtain rfl : u = w := List.append_cancel_right (hcs.trans h)
    cases u with
    | nil =>
      obtain ⟨d, rest, rfl, hd, -⟩ := hy
      cases hcs
      exact absurd hd htext
    | cons d u =>
      obtain ⟨rfl, rfl⟩ := List.cons.inj hcs
      have hreturn' := fun t hd => not_cons_before (hy'.head?_ne (by decide)) (fun t => hreturn t hd) t
      simp [skipFiller, htext]
  | case6 b c cs hfeed hreturn hinside hblank ih =>
    obtain ⟨u, rfl, rfl⟩ := eq_cons_of_leaves hcs (hsuffix _ _ h)
    have hnext := ih rfl h
    have hc : c ≠ '\r' := by
      rintro rfl
      cases hblank
    simpa [skipFiller, hinside, hblank, hc] using hnext
  | case7 b cs hinside hfeed hreturn hblank ih =>
    obtain ⟨u, rfl, rfl⟩ := eq_cons_of_leaves hcs (hsuffix _ _ h)
    have hnext := ih rfl h
    simpa [skipFiller, hinside, isBlank] using hnext
  | case8 b c cs hfeed hreturn hinside hblank hnote =>
    obtain rfl : u = w := List.append_cancel_right (hcs.trans h)
    cases u with
    | nil =>
      rw [Bool.eq_false_iff.2 hinside]
      exact skipFiller_bare hy'
    | cons d u =>
      obtain ⟨rfl, rfl⟩ := List.cons.inj hcs
      have hreturn' := fun t hd => not_cons_before (hy'.head?_ne (by decide)) (fun t => hreturn t hd) t
      simp [skipFiller, hinside, hblank, hnote]

/-- Where no line ends, none does with another tail. -/
lemma newline?_before_of_none (hy' : Bare z) (h : newline? (u ++ y) = none) :
    newline? (u ++ z) = none := by
  unfold newline? at h ⊢
  split at h
  · cases h
  · cases h
  · next hfeed hreturn =>
    have hfeed' := not_cons_before (hy'.head?_ne (by decide)) hfeed
    split
    · next heq => exact absurd heq (hfeed' _)
    · next heq =>
      cases u with
      | nil => exact absurd (congrArg List.head? heq) (hy'.head?_ne (by decide))
      | cons c u =>
        obtain ⟨rfl, htail⟩ := List.cons.inj heq
        have hline : ∀ t, u ++ y = '\n' :: t → False := fun t ht => hreturn t (congrArg _ ht)
        exact absurd htail (not_cons_before (hy'.head?_ne (by decide)) hline _)
    · rfl

lemma newline?_before (h : newline? (u ++ y) = some (w ++ y)) :
    newline? (u ++ z) = some (w ++ z) := by
  generalize hcs : u ++ y = cs at h
  unfold newline? at h
  split at h
  · cases h
    obtain ⟨u, rfl, hu⟩ := eq_cons_of_leaves hcs List.suffix_rfl
    obtain rfl : w = u := List.append_cancel_right hu
    rfl
  · cases h
    obtain ⟨u, rfl, hu⟩ := eq_cons_of_leaves hcs (List.suffix_cons _ _)
    obtain ⟨u, rfl, hu'⟩ := eq_cons_of_leaves hu.symm List.suffix_rfl
    obtain rfl : w = u := List.append_cancel_right hu'
    rfl
  · cases h

lemma endOfLine?_of_ne (h : skipComment (skipBlanks cs) ≠ []) :
    endOfLine? cs = newline? (skipComment (skipBlanks cs)) := by
  unfold endOfLine?
  split
  · next heq => exact absurd heq h
  · rfl

lemma skipComment_of_ne (h : c ≠ '#') : skipComment (c :: cs) = c :: cs := by
  simp [skipComment, h]

lemma eq_of_newline? (h : newline? cs = some w) : cs = '\n' :: w ∨ cs = '\r' :: '\n' :: w := by
  unfold newline? at h
  split at h
  · cases h
    exact .inl rfl
  · cases h
    exact .inr rfl
  · cases h

lemma endOfLine?_before (hy : Bare y) (hy' : Bare z) (h : endOfLine? (u ++ y) = some (w ++ y)) :
    endOfLine? (u ++ z) = some (w ++ z) := by
  have hne : skipComment (skipBlanks (u ++ y)) ≠ [] := by
    intro hnil
    rw [endOfLine?, hnil] at h
    exact hy.ne_nil (List.append_eq_nil_iff.1 (Option.some.inj h).symm).2
  rw [endOfLine?_of_ne hne, skipBlanks_before hy] at h
  -- what the line has after its blanks: nothing, a comment, or its end
  cases hline : skipBlanks u with
  | nil =>
    obtain ⟨c, rest, rfl, -, hc⟩ := id hy
    have hnote : c ≠ '#' := fun heq => hc (heq ▸ by decide)
    rw [hline, List.nil_append, skipComment_of_ne hnote] at h
    have hlength := length_newline?_lt h
    rw [List.length_append] at hlength
    omega
  | cons c t =>
    rw [hline] at h
    have hline' : skipBlanks (u ++ z) = c :: (t ++ z) := by
      rw [skipBlanks_before hy', hline, List.cons_append]
    by_cases hnote : c = '#'
    · subst hnote
      have hdrop : newline? ((t ++ y).dropWhile isText) = some (w ++ y) := h
      have hdrop' : newline? ((t ++ z).dropWhile isText) = some (w ++ z) := by
        rcases eq_of_newline? hdrop with heq | heq
        · rw [(dropWhile_before heq).1, newline?]
        · rw [(dropWhile_before (w := '\n' :: w) heq).1]
          rfl
      rw [endOfLine?_of_ne, hline', skipComment, hdrop']
      rw [hline', skipComment]
      intro hnil
      rw [hnil] at hdrop'
      cases hdrop'
    · rw [List.cons_append, skipComment_of_ne hnote] at h
      rw [endOfLine?_of_ne, hline', skipComment_of_ne hnote]
      · exact newline?_before (u := c :: t) h
      · rw [hline', skipComment_of_ne hnote]
        exact List.cons_ne_nil _ _

end Trivia

/-! ### Keys -/

section Keys

variable {c : Char} {u w y z : List Char} {key : Key}

/-- A part of a key is the same whatever stands behind the character after it. -/
lemma keyPart?_before (h : keyPart? (u ++ y) = some (key, c :: (w ++ y))) :
    key.span = ⟨u ++ y, c :: (w ++ y)⟩ ∧
      keyPart? (u ++ z) =
        some (⟨key.name, u ++ z, c :: (w ++ z)⟩, c :: (w ++ z)) := by
  unfold keyPart? at h
  split at h
  · next hbare =>
    obtain ⟨⟨name, stop⟩, hname, heq⟩ := Option.map_eq_some_iff.1 h
    cases heq
    have hname' : lineString? (u ++ z) = some (name, c :: w ++ z) := lineString?_before hname
    have hlength := (lineString?_suffix _ _ _ hname).length_le
    rw [List.length_cons, List.length_append, List.length_append] at hlength
    cases u with
    | nil =>
      rw [List.length_nil] at hlength
      omega
    | cons d u =>
      have hd : ¬isBareKeyChar d = true := by
        intro hd
        rw [List.cons_append, List.takeWhile_cons_of_pos hd] at hbare
        cases hbare
      have hbare' : (d :: u ++ z).takeWhile isBareKeyChar = [] :=
        List.takeWhile_cons_of_neg hd
      refine ⟨rfl, ?_⟩
      rw [keyPart?, hbare']
      dsimp only
      rw [hname']
      rfl
  · next hbare =>
    obtain ⟨rfl, hdrop⟩ := Prod.mk.inj (Option.some.inj h)
    obtain ⟨hdrop', htake⟩ := dropWhile_before (z := z) hdrop
    refine ⟨by rw [hdrop], ?_⟩
    unfold keyPart?
    split
    · next hnil => exact absurd (htake.symm.trans hnil) hbare
    · rw [hdrop', htake]

end Keys

end MemberRelay.Proofs
