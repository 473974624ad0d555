import MemberRelay.Proofs.Toml.Outline
import MemberRelay.Proofs.Toml.Pairs

/-!
# Lines

How a text may write headers and pairs line by line, with empty lines and comments between them. The
reader of statements finds one statement for each line that says something.
-/

namespace MemberRelay.Proofs
open Toml

/-- A line that says something: it opens a section, gives a value to a path of names, or gives a whole
section in braces. -/
inductive Line where
  | header (n : String)
  | pair (ns : List String) (s : Scalar)
  | braces (n : String) (ps : List (String × Scalar))

/-- Blanks, and maybe a comment. -/
inductive Remark : List Char → Prop where
  | blanks {b : List Char} (hb : Blanks b) : Remark b
  | comment {b note : List Char} (hb : Blanks b) (hnote : ∀ c ∈ note, isText c) :
      Remark (b ++ '#' :: note)

/-- The end of a line before the rest of a text. The last line needs none. -/
inductive LineEnd : List Char → List Char → Prop where
  | feed (rest : List Char) : LineEnd ['\n'] rest
  | both (rest : List Char) : LineEnd ['\r', '\n'] rest
  | last : LineEnd [] []

inductive SpellsLine : Line → List Char → Prop where
  | header {n : String} {b k : List Char} (hb : Blanks b) (hk : SpellsKey [n] k) :
      SpellsLine (.header n) (b ++ '[' :: (k ++ [']']))
  | pair {ns : List String} {s : Scalar} {t : List Char} (h : SpellsPair ns s t) :
      SpellsLine (.pair ns s) t
  | braces {n : String} {ps : List (String × Scalar)} {k b ts : List Char} (hk : SpellsKey [n] k)
      (hb : Blanks b) (h : SpellsPairs ps ts) :
      SpellsLine (.braces n ps) (k ++ '=' :: (b ++ '\x7b' :: ts))

inductive SpellsLines : List Line → List Char → Prop where
  | done : SpellsLines [] []
  | remark {ls : List Line} {r e rest : List Char} (hr : Remark r) (he : LineEnd e rest)
      (h : SpellsLines ls rest) : SpellsLines ls (r ++ (e ++ rest))
  | line {l : Line} {ls : List Line} {t r e rest : List Char} (hl : SpellsLine l t) (hr : Remark r)
      (he : LineEnd e rest) (h : SpellsLines ls rest) :
      SpellsLines (l :: ls) (t ++ (r ++ (e ++ rest)))

/-- A document can hold what the line says, and it says nothing twice. -/
def Line.Fits : Line → Prop
  | .header _ => True
  | .pair ns s => ns.length < depthLimit ∧ Storable s
  | .braces _ ps => (∀ p ∈ ps, Storable p.2) ∧ (ps.map (·.1)).Nodup

inductive States : Line → Statement → Prop where
  | header {n : String} {key : Key} {span : Span} (hkey : key.name = n) :
      States (.header n) (.openTable [] key span)
  | pair {ns : List String} {s : Scalar} {a : Assignment} (h : Assigns ns s a) :
      States (.pair ns s) (.assign a)
  | braces {n : String} {ps : List (String × Scalar)} {key : Key} {t : Table Value}
      (hkey : key.name = n) (horigin : t.origin = .braces) (ht : Holds t ps) :
      States (.braces n ps) (.assign ⟨[], key, .table t⟩)

/-! ### One line -/

section Line

variable {r e rest t cs : List Char} {l : Line} {c : Char}

/-- What a line starts with. -/
def StartsLine (c : Char) : Prop := isBareKeyChar c ∨ c = '['

lemma endOfLine?_remark (hr : Remark r) (he : LineEnd e rest) :
    endOfLine? (r ++ (e ++ rest)) = some rest := by
  cases hr with
  | blanks hb =>
    rw [endOfLine?, skipBlanks_append hb]
    cases he <;> rfl
  | @comment b note hb hnote =>
    have hstop : (note ++ (e ++ rest)).dropWhile isText = e ++ rest := by
      rw [List.dropWhile_append_of_pos hnote]
      cases he <;> rfl
    rw [List.append_assoc, endOfLine?, skipBlanks_append hb, List.cons_append,
      skipBlanks_cons (by decide), skipComment, hstop]
    cases he <;> rfl

lemma stops_remark (hr : Remark r) (he : LineEnd e rest) : Stops (r ++ (e ++ rest)) := by
  have hend : Stops (e ++ rest) := by
    intro c hc
    cases he with
    | feed | both =>
      cases hc
      decide
    | last => cases hc
  cases hr with
  | blanks hb =>
    cases r with
    | nil => exact hend
    | cons d b =>
      have hblank := hb d List.mem_cons_self
      simp only [isBlank, Bool.or_eq_true, decide_eq_true_eq] at hblank
      intro c hc
      cases hc
      rcases hblank with rfl | rfl <;> decide
  | comment hb =>
    rw [List.append_assoc]
    exact stops_append hb (by decide)

lemma key?_skipBlanks (cs : List Char) : key? (skipBlanks cs) = key? cs := by
  have hkeys : ∀ limit, keyFrom? (limit + 1) (skipBlanks cs) = keyFrom? (limit + 1) cs := by
    intro limit
    rw [keyFrom?, keyFrom?, skipBlanks_skipBlanks]
  rw [key?, key?, show depthLimit - 1 = 78 + 1 from rfl, hkeys]

lemma SpellsLine.starts (rest : List Char) (h : SpellsLine l t) :
    ∃ c cs, skipBlanks (t ++ rest) = c :: cs ∧ StartsLine c := by
  cases h with
  | header hb hk =>
    rw [List.append_assoc, skipBlanks_append hb]
    exact ⟨'[', _, skipBlanks_cons (by decide), .inr rfl⟩
  | pair h =>
    cases h with
    | pair hk =>
      rw [List.append_assoc]
      obtain ⟨c, cs, hcs, hc⟩ := hk.starts _
      exact ⟨c, cs, hcs, .inl hc⟩
  | braces hk =>
    rw [List.append_assoc]
    obtain ⟨c, cs, hcs, hc⟩ := hk.starts _
    exact ⟨c, cs, hcs, .inl hc⟩

lemma header?_of_key {n : String} {k : List Char} (hk : SpellsKey [n] k) (rest : List Char) :
    ∃ (key : Key) (span : Span), key.name = n ∧
      header? ('[' :: (k ++ ']' :: rest)) = some (.openTable [] key span, rest) := by
  obtain ⟨path, key, hkey, hnames⟩ :=
    key?_spells rest hk (by simp [depthLimit]) (⟨by decide, by decide, by decide⟩ : EndsKey ']')
  obtain ⟨hpath, hname⟩ := eq_of_one_name hnames
  refine ⟨key, ⟨'[' :: (k ++ ']' :: rest), rest⟩, hname, ?_⟩
  unfold header?
  split
  · next heq =>
    -- the name of a section does not start with a bracket
    obtain ⟨c, cs, hstart, hc⟩ := hk.starts (']' :: rest)
    rw [List.tail_eq_of_cons_eq heq, skipBlanks_cons (by decide)] at hstart
    cases hstart
    cases hc
  · next heq =>
    rw [List.tail_eq_of_cons_eq heq.symm, hkey, hpath]
    rfl
  · next hne => exact absurd rfl (hne _)

lemma statement?_of_assignment {next : List Char} {a : Assignment} (hstart : skipBlanks cs = c :: t)
    (hc : isBareKeyChar c) (ha : assignment? (value? (depthLimit - 1)) cs = some (a, rest))
    (hend : endOfLine? rest = some next) : statement? (skipBlanks cs) = some (.assign a, next) := by
  have hskip : assignment? (value? (depthLimit - 1)) (skipBlanks cs) = some (a, rest) := by
    rw [← ha, assignment?, assignment?, key?_skipBlanks]
  rw [hstart] at hskip ⊢
  unfold statement?
  split
  · next heq =>
    cases heq
    cases hc
  · simp [hskip, hend]

/-- A line is read as its statement, up to its end. -/
lemma statement?_line (hl : SpellsLine l t) (hfits : l.Fits) (hr : Remark r) (he : LineEnd e rest) :
    ∃ s, statement? (skipBlanks (t ++ (r ++ (e ++ rest)))) = some (s, rest) ∧ States l s := by
  have hend := endOfLine?_remark hr he
  cases hl with
  | @header n b k hb hk =>
    obtain ⟨key, span, hname, hheader⟩ := header?_of_key hk (r ++ (e ++ rest))
    refine ⟨.openTable [] key span, ?_, .header hname⟩
    simp only [List.append_assoc, List.cons_append, List.nil_append]
    rw [skipBlanks_append hb, skipBlanks_cons (by decide)]
    simp [statement?, hheader, hend]
  | @pair ns s _ h =>
    obtain ⟨a, ha, hassigns⟩ :=
      assignment?_spells (depthLimit - 1) h hfits.2 hfits.1 (stops_remark hr he)
    obtain ⟨k, v, rfl, hk⟩ : ∃ k v, t = k ++ v ∧ SpellsKey ns k := by
      cases h with
      | pair hk => exact ⟨_, _, rfl, hk⟩
    obtain ⟨c, cs, hstart, hc⟩ := hk.starts (v ++ (r ++ (e ++ rest)))
    rw [← List.append_assoc] at hstart
    exact ⟨_, statement?_of_assignment hstart hc ha hend, .pair hassigns⟩
  | @braces n ps k b ts hk hb h =>
    obtain ⟨c, cs, hstart, hc⟩ := hk.starts ('=' :: (b ++ '\x7b' :: (ts ++ (r ++ (e ++ rest)))))
    obtain ⟨path, key, hkey, hnames⟩ :=
      key?_spells (b ++ '\x7b' :: (ts ++ (r ++ (e ++ rest)))) hk (by simp [depthLimit]) endsKey_equals
    obtain ⟨table, htable, horigin, hholds⟩ :=
      value?_braces (depthLimit - 2) (r ++ (e ++ rest)) h hfits.1 hfits.2
    obtain ⟨hpath, hname⟩ := eq_of_one_name hnames
    have ha : assignment? (value? (depthLimit - 1))
        (k ++ '=' :: (b ++ '\x7b' :: (ts ++ (r ++ (e ++ rest))))) =
          some (⟨[], key, .table table⟩, r ++ (e ++ rest)) := by
      have hskip : skipBlanks (b ++ '\x7b' :: (ts ++ (r ++ (e ++ rest)))) =
          '\x7b' :: (ts ++ (r ++ (e ++ rest))) := by
        rw [skipBlanks_append hb, skipBlanks_cons (by decide)]
      rw [assignment?, hkey, hpath]
      simp only [Option.bind_eq_bind, Option.bind_some, Reader.literal?, if_true, hskip]
      rw [show depthLimit - 1 = depthLimit - 2 + 1 from rfl, htable]
      rfl
    refine ⟨_, ?_, .braces hname horigin hholds⟩
    simp only [List.append_assoc, List.cons_append]
    exact statement?_of_assignment hstart hc ha hend

end Line

/-! ### All lines -/

section Lines

variable {r e rest t cs : List Char} {l : Line} {ls : List Line} {c : Char} {done : List Statement}
  {fuel : Nat}

lemma statementsFrom_line (done : List Statement) (fuel : Nat) (hl : SpellsLine l t)
    (hfits : l.Fits) (hr : Remark r) (he : LineEnd e rest) :
    ∃ s, States l s ∧ statementsFrom done (fuel + 1) (t ++ (r ++ (e ++ rest))) =
      statementsFrom (s :: done) fuel rest := by
  obtain ⟨s, hs, hstates⟩ := statement?_line hl hfits hr he
  obtain ⟨c, cs, hstart, hc⟩ := hl.starts (r ++ (e ++ rest))
  refine ⟨s, hstates, ?_⟩
  rw [hstart] at hs
  rw [statementsFrom, hstart]
  split
  · next heq => cases heq
  · next heq =>
    cases heq
    rcases hc with hc | hc <;> cases hc
  · have hnewline : newline? (c :: cs) = none := by
      unfold newline?
      split
      · next heq =>
        cases heq
        rcases hc with hc | hc <;> cases hc
      · next heq =>
        cases heq
        rcases hc with hc | hc <;> cases hc
      · rfl
    simp [hnewline, hs]

/-- A line that says nothing is passed over. -/
lemma statementsFrom_remark (hend : endOfLine? cs = some rest) (hne : skipBlanks cs ≠ []) :
    statementsFrom done (fuel + 1) cs = statementsFrom done fuel rest := by
  rw [statementsFrom]
  split
  · next heq => exact absurd heq hne
  · next heq =>
    have hnote : endOfLine? (skipBlanks cs) = some rest := by
      rwa [endOfLine?, skipBlanks_skipBlanks]
    rw [← heq, hnote]
    rfl
  · next hnote =>
    have hnewline : newline? (skipBlanks cs) = some rest := by
      have hskip : skipComment (skipBlanks cs) = skipBlanks cs := by
        unfold skipComment
        split
        · next heq => exact absurd heq (hnote _)
        · rfl
      rw [endOfLine?, hskip] at hend
      split at hend
      · next heq => exact absurd heq hne
      · exact hend
    rw [hnewline]

/-- The reader finds the statements of the lines. -/
theorem statementsFrom_lines (h : SpellsLines ls cs) (hfits : ∀ l ∈ ls, l.Fits)
    (hfuel : cs.length < fuel) :
    ∃ ss, statementsFrom done fuel cs = some (done.reverse ++ ss) ∧ List.Forall₂ States ls ss := by
  induction h generalizing done fuel with
  | done =>
    obtain ⟨fuel, rfl⟩ := Nat.exists_eq_succ_of_ne_zero (Nat.ne_of_gt hfuel)
    exact ⟨[], by simp [statementsFrom, skipBlanks], .nil⟩
  | @remark ls r e rest hr he h ih =>
    obtain ⟨fuel, rfl⟩ := Nat.exists_eq_succ_of_ne_zero (Nat.ne_of_gt (Nat.zero_lt_of_lt hfuel))
    have hend := endOfLine?_remark hr he
    by_cases hblank : skipBlanks (r ++ (e ++ rest)) = []
    · -- the text is at its end, where one more step does nothing
      obtain rfl : [] = rest := by
        rw [endOfLine?, hblank] at hend
        exact Option.some.inj hend
      obtain ⟨ss, hss, hall⟩ := @ih done 1 hfits Nat.one_pos
      refine ⟨ss, ?_, hall⟩
      rw [← hss, statementsFrom, hblank]
      rfl
    · have hlonger : rest.length < fuel := by
        have hlength : (r ++ (e ++ rest)).length ≠ rest.length := by
          cases he with
          | feed | both =>
            simp only [List.length_append, List.length_cons, List.length_nil]
            omega
          | last =>
            cases r with
            | nil => exact absurd rfl hblank
            | cons => simp
        simp only [List.length_append] at hfuel hlength
        omega
      rw [statementsFrom_remark hend hblank]
      exact ih hfits hlonger
  | @line l ls t r e rest hl hr he _ ih =>
    rw [List.forall_mem_cons] at hfits
    obtain ⟨fuel, rfl⟩ := Nat.exists_eq_succ_of_ne_zero (Nat.ne_of_gt (Nat.zero_lt_of_lt hfuel))
    obtain ⟨s, hstates, hline⟩ := statementsFrom_line done fuel hl hfits.1 hr he
    have hlonger : rest.length < fuel := by
      have hlength : 0 < t.length := by
        cases hl with
        | header | braces =>
          simp only [List.length_append, List.length_cons]
          omega
        | pair h =>
          cases h
          simp only [List.length_append, List.length_cons]
          omega
      simp only [List.length_append] at hfuel
      omega
    obtain ⟨ss, hss, hall⟩ := @ih (s :: done) fuel hfits.2 hlonger
    refine ⟨s :: ss, ?_, .cons hstates hall⟩
    rw [hline, hss, List.reverse_cons, List.append_assoc, List.singleton_append]

lemma SpellsLines.not_mark (h : SpellsLines ls cs) : cs.head? ≠ some '\uFEFF' := by
  intro hmark
  cases h with
  | done => cases hmark
  | remark hr he => exact absurd (stops_remark hr he _ hmark) (by decide)
  | @line l _ t r e rest hl =>
    obtain ⟨c, cs, hstart, hc⟩ := hl.starts (r ++ (e ++ rest))
    obtain ⟨text, htext⟩ := List.head?_eq_some_iff.1 hmark
    rw [htext, skipBlanks_cons (by decide)] at hstart
    cases hstart
    rcases hc with hc | hc <;> cases hc

/-- A text of lines has a statement for each line that says something. -/
theorem statements?_lines (h : SpellsLines ls cs) (hfits : ∀ l ∈ ls, l.Fits) :
    ∃ ss, statements? cs = some ss ∧ List.Forall₂ States ls ss := by
  have hfrom := @statementsFrom_lines cs ls [] _ h hfits (Nat.lt_succ_self _)
  unfold statements?
  split
  · exact absurd rfl h.not_mark
  · exact hfrom

end Lines

/-! ### Lines with few blanks -/

section Plain

variable {n : String} {s : Scalar} {l : Line} {ls : List Line} {r t v rest : List Char}

lemma spellsKey_bare (hn : IsBare n) : SpellsKey [n] n.toList := by
  have hkey : SpellsKey [n] ([] ++ (n.toList ++ [])) := .one blanks_nil hn blanks_nil
  simpa using hkey

lemma spellsLine_header (hn : IsBare n) : SpellsLine (.header n) ('[' :: (n.toList ++ [']'])) :=
  .header (b := []) blanks_nil (spellsKey_bare hn)

lemma spellsPair_spaced (hn : IsBare n) (hv : SpellsScalar s v) :
    SpellsPair [n] s (n.toList ++ (' ' :: '=' :: ' ' :: v)) := by
  have hblank : Blanks [' '] := by simp [Blanks, isBlank]
  have hkey : SpellsKey [n] (n.toList ++ [' ']) := .one blanks_nil hn hblank
  simpa using SpellsPair.pair hkey hblank hv

lemma remark_note (h : r.all isText) : Remark ('#' :: r) :=
  .comment (b := []) blanks_nil (List.all_eq_true.1 h)

lemma SpellsLines.feed (hl : SpellsLine l t) (h : SpellsLines ls rest) :
    SpellsLines (l :: ls) (t ++ '\n' :: rest) :=
  .line (r := []) hl (.blanks blanks_nil) (.feed rest) h

lemma SpellsLines.aside (hr : Remark r) (h : SpellsLines ls rest) :
    SpellsLines ls (r ++ '\n' :: rest) :=
  .remark hr (.feed rest) h

lemma exists_spellsLines (h : ∀ l ∈ ls, ∃ t, SpellsLine l t) : ∃ cs, SpellsLines ls cs := by
  induction ls with
  | nil => exact ⟨[], .done⟩
  | cons l ls ih =>
    rw [List.forall_mem_cons] at h
    obtain ⟨⟨t, ht⟩, hrest⟩ := h
    obtain ⟨cs, hcs⟩ := ih hrest
    exact ⟨_, .feed ht hcs⟩

end Plain

end MemberRelay.Proofs
