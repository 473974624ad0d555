import Mathlib.Data.List.DropRight
import Mathlib.Data.List.TakeWhile
import Mathlib.Tactic.Common
import MemberRelay.FileSystem.Path

/-!
# Pieces of a text

A text is taken apart at a separator: names at slashes, lines at line feeds. What stands around a
place without separators is one piece.
-/

namespace MemberRelay.Proofs

section Pieces

variable {α : Type} [DecidableEq α]

lemma pieces_ne_nil (separator : α) (cs : List α) :
    Path.pieces separator cs ≠ [] := by
  cases cs with
  | nil => simp [Path.pieces]
  | cons c cs =>
    rw [Path.pieces]
    split
    · simp
    · split <;> simp

lemma pieces_append_cons (separator : α) (xs ys : List α) :
    Path.pieces separator (xs ++ separator :: ys) =
      Path.pieces separator xs ++ Path.pieces separator ys := by
  induction xs with
  | nil => simp [Path.pieces]
  | cons x xs ih =>
    rw [List.cons_append, Path.pieces, Path.pieces]
    by_cases hx : x = separator
    · rw [if_pos hx, if_pos hx, ih, List.cons_append]
    · rw [if_neg hx, if_neg hx, ih]
      obtain ⟨p, ps, hps⟩ := List.exists_cons_of_ne_nil (pieces_ne_nil separator xs)
      rw [hps]
      rfl

lemma pieces_of_not_mem {separator : α} {cs : List α}
    (h : separator ∉ cs) : Path.pieces separator cs = [cs] := by
  induction cs with
  | nil => rfl
  | cons c cs ih =>
    rw [List.mem_cons, not_or] at h
    rw [Path.pieces, if_neg (Ne.symm h.1), ih h.2]

/-- The characters since the last separator. -/
def sinceLast (separator : α) (cs : List α) : List α := cs.rtakeWhile (· ≠ separator)

lemma head?_pieces (separator : α) (cs : List α) :
    (Path.pieces separator cs).head? = some (cs.takeWhile (· ≠ separator)) := by
  induction cs with
  | nil => rfl
  | cons c cs ih =>
    rw [Path.pieces]
    by_cases hc : c = separator
    · simp [hc]
    · obtain ⟨p, ps, hps⟩ := List.exists_cons_of_ne_nil (pieces_ne_nil separator cs)
      rw [hps] at ih ⊢
      rw [if_neg hc, List.takeWhile_cons_of_pos (by simpa using hc)]
      simpa using ih

lemma length_pieces (separator : α) (cs : List α) :
    (Path.pieces separator cs).length = cs.count separator + 1 := by
  induction cs with
  | nil => rfl
  | cons c cs ih =>
    rw [Path.pieces]
    by_cases hc : c = separator
    · rw [if_pos hc, hc, List.length_cons, ih, List.count_cons_self]
    · obtain ⟨p, ps, hps⟩ := List.exists_cons_of_ne_nil (pieces_ne_nil separator cs)
      rw [hps] at ih ⊢
      rw [if_neg hc, List.count_cons_of_ne hc]
      exact ih

lemma not_mem_sinceLast {separator : α} {cs : List α} : separator ∉ sinceLast separator cs := by
  intro hmem
  have hne := List.mem_rtakeWhile_imp hmem
  simp at hne

/-- What precedes the characters since the last separator is nothing, or ends in a separator. -/
lemma exists_eq_append_sinceLast (separator : α) (cs : List α) :
    cs = sinceLast separator cs ∨ ∃ front, cs = front ++ separator :: sinceLast separator cs := by
  induction cs using List.reverseRecOn with
  | nil => exact .inl rfl
  | append_singleton cs c ih =>
    rw [sinceLast, List.rtakeWhile_concat]
    by_cases hc : c = separator
    · subst hc
      exact .inr ⟨cs, by simp⟩
    · rw [if_pos (by simpa using hc)]
      rcases ih with ih | ⟨front, ih⟩
      · exact .inl (by rw [← sinceLast, ← ih])
      · refine .inr ⟨front, ?_⟩
        nth_rewrite 1 [ih]
        simp [sinceLast]

/-- The piece around a place reaches from the last separator before it to the next one. -/
theorem getElem?_pieces_append (separator : α) (xs ys : List α) :
    (Path.pieces separator (xs ++ ys))[xs.count separator]? =
      some (sinceLast separator xs ++ ys.takeWhile (· ≠ separator)) := by
  have hrest : (sinceLast separator xs ++ ys).takeWhile (· ≠ separator) =
      sinceLast separator xs ++ ys.takeWhile (· ≠ separator) := by
    apply List.takeWhile_append_of_pos
    intro c hc
    simpa using fun h : c = separator => not_mem_sinceLast (h ▸ hc)
  rw [← hrest, ← head?_pieces, List.head?_eq_getElem?]
  rcases exists_eq_append_sinceLast separator xs with hxs | ⟨front, hxs⟩
  · have hcount : xs.count separator = 0 := by
      rw [hxs]
      exact List.count_eq_zero.2 not_mem_sinceLast
    rw [hcount, ← hxs]
  · have hcount : xs.count separator = (Path.pieces separator front).length := by
      rw [length_pieces, hxs, List.count_append, List.count_cons_self,
        List.count_eq_zero.2 not_mem_sinceLast]
    rw [hcount]
    nth_rewrite 1 [hxs]
    rw [List.append_assoc, List.cons_append, pieces_append_cons,
      List.getElem?_append_right (Nat.le_refl _), Nat.sub_self]

end Pieces

/-- What stands behind the last separator and what stands before it are determined. -/
lemma append_cons_inj_of_not_mem_back {α : Type} {c : α} {xs ys xs' ys' : List α} (hys : c ∉ ys)
    (hys' : c ∉ ys') (h : xs ++ c :: ys = xs' ++ c :: ys') : xs = xs' ∧ ys = ys' := by
  rcases List.append_eq_append_iff.1 h with ⟨mid, hfront, hback⟩ | ⟨mid, hfront, hback⟩
  · cases mid with
    | nil => exact ⟨by simpa using hfront.symm, (List.cons.inj hback).2⟩
    | cons d mid =>
      rw [(List.cons.inj hback).2] at hys
      simp at hys
  · cases mid with
    | nil => exact ⟨by simpa using hfront, (List.cons.inj hback).2.symm⟩
    | cons d mid =>
      rw [(List.cons.inj hback).2] at hys'
      simp at hys'

end MemberRelay.Proofs
