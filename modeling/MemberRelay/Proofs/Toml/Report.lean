import Mathlib.Data.String.Basic
import MemberRelay.Proofs.Text.Pieces
import MemberRelay.Toml.Span

/-!
# Reports

What a report says of a piece of a text: the line and the column where it starts, the whole line, and
a mark for each of its bytes on that line.
-/

namespace MemberRelay.Proofs
open Toml

/-- What the report of a piece points at. The piece `body` of a text stands between two others. A
piece of several lines is marked up to the end of its first one; if other than plain characters stand
before it on its line, nothing is said of the marks. -/
structure PointsAt (before body after : List Char) (line column : Nat) (content : List Char)
    (marks : Nat) : Prop where
  onLine : line = before.count '\n' + 1
  atColumn : column = (sinceLast '\n' before).length + 1
  quotes : (Path.pieces '\n' (before ++ (body ++ after)))[line - 1]? = some content
  marked : '\n' ∉ body ∨ (∀ c ∈ sinceLast '\n' before, c.toNat < 128) →
    marks = max 1 (String.ofList (body.takeWhile (· ≠ '\n'))).utf8ByteSize

/-- The text of a report. -/
def reportText (line column : Nat) (content : List Char) (marks : Nat) (reason : String) : String :=
  let number := toString line
  let gutter := String.ofList (List.replicate (number.length + 1) ' ')
  let under := String.ofList (List.replicate column ' ' ++ List.replicate marks '^')
  s!"TOML parse error at line {number}, column {column}\n" ++
    s!"{gutter}|\n{number} | {String.ofList content}\n{gutter}|{under}\n{reason}\n"

section Bytes

variable {cs ds : List Char}

lemma byteCount_cons (c : Char) (cs : List Char) : byteCount (c :: cs) = c.utf8Size + byteCount cs := by
  have hfrom : ∀ n, cs.foldl (fun n c => n + c.utf8Size) n = n + byteCount cs := by
    intro n
    rw [byteCount]
    induction cs generalizing n with
    | nil => rfl
    | cons d cs ih =>
      rw [List.foldl_cons, List.foldl_cons, ih, ih (0 + d.utf8Size)]
      omega
  rw [byteCount, List.foldl_cons, Nat.zero_add, hfrom]

lemma byteCount_append (cs ds : List Char) : byteCount (cs ++ ds) = byteCount cs + byteCount ds := by
  induction cs with
  | nil => simp [byteCount]
  | cons c cs ih => rw [List.cons_append, byteCount_cons, byteCount_cons, ih, Nat.add_assoc]

lemma byteCount_eq (cs : List Char) : byteCount cs = (String.ofList cs).utf8ByteSize := by
  induction cs with
  | nil => rfl
  | cons c cs ih =>
    rw [byteCount_cons, ih, String.utf8ByteSize_ofList, String.utf8ByteSize_ofList, String.utf8Len_cons,
      Nat.add_comm]

lemma length_le_byteCount (cs : List Char) : cs.length ≤ byteCount cs := by
  induction cs with
  | nil => exact Nat.zero_le _
  | cons c cs ih =>
    have hc := c.utf8Size_pos
    rw [List.length_cons, byteCount_cons]
    omega

/-- A plain character is one byte. -/
lemma byteCount_of_plain (h : ∀ c ∈ cs, c.toNat < 128) : byteCount cs = cs.length := by
  induction cs with
  | nil => rfl
  | cons c cs ih =>
    rw [List.forall_mem_cons] at h
    have hc : c.utf8Size = 1 := Char.utf8Size_eq_one_iff.2 (UInt32.le_iff_toNat_le.2 (by
      have hlt := h.1
      change c.toNat ≤ 127
      omega))
    rw [byteCount_cons, hc, ih h.2, List.length_cons, Nat.add_comm]

end Bytes

section Report

variable {before body after : List Char}

lemma place_of_append (before start : List Char) : Place.of (before ++ start) start =
    ⟨before.count '\n', (sinceLast '\n' before).length,
      sinceLast '\n' before ++ start.takeWhile (· ≠ '\n')⟩ := by
  have hbefore : (before ++ start).take ((before ++ start).length - start.length) = before := by
    rw [List.length_append, Nat.add_sub_cancel, List.take_left]
  rw [Place.of, hbefore]
  rfl

lemma text_of_append (body after : List Char) : (Span.mk (body ++ after) after).text = body := by
  rw [Span.text, List.length_append, Nat.add_sub_cancel, List.take_left]

/-- The marks are the bytes of the piece on its first line. -/
lemma marks_of_append (h : '\n' ∉ body ∨ ∀ c ∈ sinceLast '\n' before, c.toNat < 128) :
    (Place.of (before ++ (body ++ after)) (body ++ after)).marks ⟨body ++ after, after⟩ =
      max 1 (byteCount (body.takeWhile (· ≠ '\n'))) := by
  rw [Place.marks, place_of_append, text_of_append]
  dsimp only
  rw [byteCount_append]
  by_cases hline : '\n' ∈ body
  · have hplain := byteCount_of_plain (h.resolve_left fun hnot => hnot hline)
    obtain ⟨front, rest, rfl, hfront⟩ := List.eq_append_cons_of_mem hline
    have hall : ∀ c ∈ front, decide (c ≠ '\n') = true := by
      intro c hc
      simpa using fun heq : c = '\n' => hfront (heq ▸ hc)
    rw [List.append_assoc, List.cons_append, List.takeWhile_append_of_pos hall,
      List.takeWhile_append_of_pos hall, List.takeWhile_cons_of_neg (by simp),
      List.takeWhile_cons_of_neg (by simp), List.append_nil, byteCount_append]
    omega
  · have hall : ∀ c ∈ body, decide (c ≠ '\n') = true := by
      intro c hc
      simpa using fun heq : c = '\n' => hline (heq ▸ hc)
    have hlead := length_le_byteCount (sinceLast '\n' before)
    rw [List.takeWhile_append_of_pos hall, List.takeWhile_eq_self_iff.2 hall, byteCount_append]
    omega

/-- A report points at the piece that it is given. -/
theorem report_points (before body after : List Char) (reason : String) :
    ∃ line column content marks, PointsAt before body after line column content marks ∧
      report (before ++ (body ++ after)) ⟨body ++ after, after⟩ reason =
        reportText line column content marks reason := by
  refine ⟨before.count '\n' + 1, (sinceLast '\n' before).length + 1,
    sinceLast '\n' before ++ (body ++ after).takeWhile (· ≠ '\n'),
    (Place.of (before ++ (body ++ after)) (body ++ after)).marks ⟨body ++ after, after⟩,
    ⟨rfl, rfl, ?_, ?_⟩, ?_⟩
  · exact getElem?_pieces_append '\n' before (body ++ after)
  · intro h
    rw [← byteCount_eq]
    exact marks_of_append h
  · have hplace := place_of_append before (body ++ after)
    unfold report reportText
    generalize Place.of (before ++ (body ++ after)) (body ++ after) = place at hplace ⊢
    subst hplace
    rfl

end Report

end MemberRelay.Proofs
