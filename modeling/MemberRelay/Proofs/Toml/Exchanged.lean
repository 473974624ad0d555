import MemberRelay.Proofs.Toml.Exchange

/-!
# Documents with another literal

Where the digit stands for a value of a document, the document with another literal there is read as
the literal is: it is the same document with another value, or none at all.
-/

namespace MemberRelay.Proofs
open Toml

namespace Exchange

/-! ### Values -/

section Values

variable {e : Exchange} {cs inner rest : List Char} {s : Scalar} {v : Value} {as : List Assignment}
  {t : Table Value} {depth : Nat} {x : Scalar}

lemma value?_of_scalar (harray : ∀ inner, cs ≠ '[' :: inner) (hbraces : ∀ inner, cs ≠ '\x7b' :: inner) :
    value? depth cs = (scalar? cs).map fun r => (.scalar r.1 ⟨cs, r.2⟩, r.2) := by
  cases depth with
  | zero => rfl
  | succ depth =>
    unfold value?
    split
    · exact absurd rfl (harray _)
    · exact absurd rfl (hbraces _)
    · rfl

lemma value?_of_scalar? (h : scalar? cs = some (s, rest)) :
    value? depth cs = some (.scalar s ⟨cs, rest⟩, rest) := by
  have hstart : ∀ c, c = '[' ∨ c = ']' ∨ c = '\x7b' → ∀ inner, cs ≠ c :: inner := by
    rintro c hc inner rfl
    rw [scalar?_of_bracket hc] at h
    cases h
  rw [value?_of_scalar (hstart _ (by simp)) (hstart _ (by simp)), h]
  rfl

variable (e) in
/-- The literal in the place of a value. -/
lemma value?_new : value? depth e.new =
    (scalar? e.new).map fun r => (.scalar r.1 ⟨e.new, r.2⟩, r.2) :=
  value?_of_scalar (fun _ h => e.bare.head?_ne (by decide) (congrArg List.head? h))
    fun _ h => e.bare.head?_ne (by decide) (congrArg List.head? h)

lemma scalar_spared (h : scalar? cs = some (s, rest)) (hspares : e.Spares cs rest)
    (hend : Ended rest) : value? depth (e.shift cs) =
      some ((e.revision x).value (.scalar s ⟨cs, rest⟩), e.shift rest) := by
  have hsuffix := scalar?_suffix _ _ _ h
  have hread : scalar? (e.shift cs) = some (s, e.shift rest) ∧ cs ≠ e.old := by
    rcases hspares with ⟨w, rfl⟩ | hlt
    · obtain ⟨u, rfl⟩ := (List.suffix_append w e.old).trans hsuffix
      refine ⟨?_, fun hcs => ?_⟩
      · rw [e.shift_append, e.shift_append]
        exact scalar?_before e.old_bare e.bare h hend
      · -- then nothing would be left of the piece, and its end would be the digit
        rw [hcs] at hsuffix
        have hw := List.length_append.symm.trans_le hsuffix.length_le
        rw [List.length_eq_zero_iff.1 (by omega : w.length = 0)] at hend
        exact not_ended_bare e.old_bare hend
    · rw [e.shift_of_lt hlt, e.shift_of_lt (Nat.lt_of_le_of_lt hsuffix.length_le hlt)]
      refine ⟨h, ?_⟩
      rintro rfl
      exact Nat.lt_irrefl _ hlt
  rw [value?_of_scalar? hread.1, Revision.value_scalar]
  simp only [revision, Revision.span, if_neg hread.2]

lemma scalar_held (h : scalar? cs = some (s, rest)) (hold : HasAt (.scalar s ⟨cs, rest⟩) e.old)
    {β : Type} (k : Value × List Char → Option β) (hk : ∀ v r, ¬Ended r → k (v, r) = none) :
    (value? depth (e.shift cs)).bind k =
      e.fill?.bind fun x => k ((e.revision x).value (.scalar s ⟨cs, rest⟩), rest) := by
  obtain ⟨a, ha⟩ := hold
  obtain ⟨-, rfl⟩ : _ ∧ cs = e.old := bears_scalar ha
  obtain rfl := e.hole _ _ h
  have hafter : e.shift e.after = e.after := e.shift_of_lt (Nat.lt_succ_self _)
  rw [e.shift_old, value?_new, fill?]
  cases hnew : scalar? e.new with
  | none => rfl
  | some r =>
    obtain ⟨x, stop⟩ := r
    by_cases hend : Ended stop
    · obtain rfl := e.whole _ _ hnew hend
      rw [Option.map_some, Option.bind_some, Option.bind_some, if_pos hend, Option.bind_some,
        Revision.value_scalar]
      simp only [revision, Revision.span, if_true, e.shift_old, hafter]
    · rw [Option.map_some, Option.bind_some, Option.bind_some, if_neg hend, hk _ _ hend]
      rfl

lemma value?_bracket : value? (depth + 1) ('[' :: inner) =
    (itemsFrom (value? depth) [] inner.length inner).map fun r =>
      (.array r.1 ⟨'[' :: inner, r.2⟩, r.2) := by
  rw [value?]
  cases itemsFrom (value? depth) [] inner.length inner <;> rfl

lemma value?_brace : value? (depth + 1) ('\x7b' :: inner) =
    (braced? (value? depth) inner).bind fun r => (ofAssignments? r.1).map fun t =>
      (.table { t with span := some ⟨'\x7b' :: inner, r.2⟩ }, r.2) := by
  rw [value?]
  cases braced? (value? depth) inner with
  | none => rfl
  | some r =>
    rw [Option.bind_some, Option.map_eq_bind]
    rfl

/-! #### Arrays and braces of values that are read alike -/

section Nested

variable (he : e.Exchanges (value? depth) (fun x => (e.revision x).value) id)
include he

lemma array_spared {items : List Value}
    (h : itemsFrom (value? depth) [] inner.length inner = some (items, rest))
    (hspares : e.Spares ('[' :: inner) rest) : value? (depth + 1) (e.shift ('[' :: inner)) =
      some ((e.revision x).value (.array items ⟨'[' :: inner, rest⟩), e.shift rest) := by
  obtain ⟨vs, rfl, hform⟩ := itemsFrom_form h
  have hrest := (hform.spread he.suffix he.spread).suffix
  have hinner := hspares.mono (List.suffix_cons _ _) List.suffix_rfl
  have hshift := shift_cons (hspares.mono List.suffix_rfl hrest)
  rw [hshift, value?_bracket, items_spared (x := x) he hform hinner le_rfl, Revision.value_array,
    revision_span, hshift]
  rfl

lemma braces_spared (h : braced? (value? depth) inner = some (as, rest))
    (ht : ofAssignments? as = some t) (hspares : e.Spares ('\x7b' :: inner) rest) :
    value? (depth + 1) (e.shift ('\x7b' :: inner)) =
      some ((e.revision x).value (.table { t with span := some ⟨'\x7b' :: inner, rest⟩ }),
        e.shift rest) := by
  have hrest := (braced?_spread he.suffix he.spread h).suffix
  have hinner := hspares.mono (List.suffix_cons _ _) List.suffix_rfl
  have hshift := shift_cons (hspares.mono List.suffix_rfl hrest)
  rw [hshift, value?_brace, braced?_spared (x := x) he h hinner, Option.bind_some,
    Revision.ofAssignments?_map, ht, Revision.value_table, Revision.table_mk, Option.map_some,
    Option.map_some, Revision.table_eq, Option.map_some, revision_span, hshift]

variable (hend : Ended rest) {β : Type} (k : Value × List Char → Option β)
include hend

lemma array_held {items : List Value}
    (h : itemsFrom (value? depth) [] inner.length inner = some (items, rest))
    (hold : HasAt (.array items ⟨'[' :: inner, rest⟩) e.old) :
    (value? (depth + 1) (e.shift ('[' :: inner))).bind k = e.fill?.bind fun x =>
      k ((e.revision x).value (.array items ⟨'[' :: inner, rest⟩), rest) := by
  obtain ⟨vs, rfl, hform⟩ := itemsFrom_form h
  have hheld := has_array hold
  obtain ⟨v, hv, hat⟩ := id hheld
  have hspread := hform.spread he.suffix he.spread
  obtain ⟨hplace, hle⟩ := (hspread.each v hv).within _ hat
  have hshift : e.shift ('[' :: inner) = '[' :: e.shift inner := shift_cons (.inl hplace)
  have hrest := e.shift_of_lt (lt_of_ended hspread.suffix hplace hle hend)
  rw [hshift, value?_bracket, items_held he hform hheld le_rfl]
  cases e.fill? with
  | none => rfl
  | some x =>
    rw [Option.bind_some, Option.bind_some, Option.map_some, Option.bind_some,
      Revision.value_array, revision_span, hshift, hrest]
    rfl

lemma braces_held (hlt : depth < depthLimit) (h : braced? (value? depth) inner = some (as, rest))
    (ht : ofAssignments? as = some t)
    (hold : HasAt (.table { t with span := some ⟨'\x7b' :: inner, rest⟩ }) e.old) :
    (value? (depth + 1) (e.shift ('\x7b' :: inner))).bind k = e.fill?.bind fun x =>
      k ((e.revision x).value (.table { t with span := some ⟨'\x7b' :: inner, rest⟩ }), rest) := by
  have hspread := braced?_spread he.suffix he.spread h
  have hheld := (hspread.gathered hlt h ht _).2 _ hold
  obtain ⟨a, ha, hat⟩ := id hheld
  obtain ⟨hplace, hbraced⟩ := braced?_held he h hheld
  have hle := ((hspread.each _ (List.mem_map_of_mem ha)).within _ hat).2
  have hshift : e.shift ('\x7b' :: inner) = '\x7b' :: e.shift inner := shift_cons (.inl hplace)
  have hrest := e.shift_of_lt (lt_of_ended hspread.suffix hplace hle hend)
  rw [hshift, value?_brace, hbraced]
  cases e.fill? with
  | none => rfl
  | some x =>
    rw [Option.bind_some, Option.bind_some, Option.bind_some, Revision.ofAssignments?_map, ht,
      Option.map_some, Option.map_some, Option.bind_some, Revision.value_table, Revision.table_mk,
      Revision.table_eq, Option.map_some, revision_span, hshift, hrest]

end Nested

/-- Every value is read with the literal as with the digit, but for the literal. -/
theorem value?_exchanges (hdepth : depth < depthLimit) :
    e.Exchanges (value? depth) (fun x => (e.revision x).value) id := by
  induction depth with
  | zero =>
    refine ⟨fun cs v rest h => (value?_span 0 _ _ _ h).1, fun cs v rest => value?_spread hdepth,
      fun x cs v rest h hspares hend => ?_, fun cs v rest h hend hold β k hk => ?_⟩
    · obtain ⟨⟨s, stop⟩, hs, heq⟩ := Option.map_eq_some_iff.1 h
      cases heq
      exact scalar_spared hs hspares hend
    · obtain ⟨⟨s, stop⟩, hs, heq⟩ := Option.map_eq_some_iff.1 h
      cases heq
      exact scalar_held hs hold k hk
  | succ depth ih =>
    have hlt := Nat.lt_of_succ_lt hdepth
    refine ⟨fun cs v rest h => (value?_span _ _ _ _ h).1, fun cs v rest => value?_spread hdepth,
      fun x cs v rest h hspares hend => ?_, fun cs v rest h hend hold β k hk => ?_⟩
    · cases value?_form h with
      | scalar hs => exact scalar_spared hs hspares hend
      | array hitems => exact array_spared (ih hlt) hitems hspares
      | braces has ht => exact braces_spared (ih hlt) has ht hspares
    · cases value?_form h with
      | scalar hs => exact scalar_held hs hold k hk
      | array hitems => exact array_held (ih hlt) hend k hitems hold
      | braces has ht => exact braces_held (ih hlt) hend k hlt has ht hold

end Values

/-! ### Statements -/

section Statements

variable {e : Exchange} {c : Char} {cs line note rest stop : List Char} {s : Statement} {x : Scalar}

lemma ended_of_endOfLine? (h : endOfLine? cs = some rest) : Ended cs := by
  cases hstart : skipBlanks cs with
  | nil =>
    rw [Ended, hstart]
    rfl
  | cons c line =>
    refine ended_of_skipBlanks hstart ?_
    by_cases hnote : c = '#'
    · subst hnote
      decide
    · rw [endOfLine?_of_ne, hstart, skipComment_of_ne hnote] at h
      · rcases eq_of_newline? h with heq | heq
        · cases heq
          decide
        · cases heq
          decide
      · rw [hstart, skipComment_of_ne hnote]
        exact List.cons_ne_nil _ _

lemma suffix_of_note (h : endOfLine? ('#' :: note) = some rest) : rest <:+ note := by
  have hdrop : note.dropWhile isText <:+ note := List.dropWhile_suffix _
  have hstart : skipComment (skipBlanks ('#' :: note)) = note.dropWhile isText := rfl
  by_cases hnil : note.dropWhile isText = []
  · rw [endOfLine?, hstart, hnil] at h
    cases h
    exact List.nil_suffix
  · rw [endOfLine?_of_ne (by rwa [hstart]), hstart] at h
    exact (newline?_suffix h).trans hdrop

lemma statement?_of_assignment (h : ∀ inner, cs ≠ '[' :: inner) : statement? cs =
    (assignment? (value? (depthLimit - 1)) cs).bind fun r =>
      (endOfLine? r.2).map fun rest => (.assign r.1, rest) := by
  unfold statement?
  split
  · exact absurd rfl (h _)
  · cases assignment? (value? (depthLimit - 1)) cs with
    | none => rfl
    | some r =>
      change (endOfLine? r.2).bind _ = _
      rw [Option.bind_some, Option.map_eq_bind]
      rfl

/-- An assignment does not start with a bracket. -/
lemma ne_bracket_of_assignment? {read? : Reader Value} {r : Assignment × List Char}
    (h : assignment? read? cs = some r) (inner : List Char) : cs ≠ '[' :: inner := by
  rintro rfl
  obtain ⟨after, hkey, -⟩ := assignment?_form h
  exact not_key?_of_bracket hkey

lemma statement?_of_form (h : StatementForm cs s rest) : statement? cs = some (s, rest) := by
  cases h with
  | assign ha hend =>
    rw [statement?_of_assignment (ne_bracket_of_assignment? ha), ha, Option.bind_some, hend]
    rfl
  | @openTable inner stop rest path key hkey hend =>
    have hheader : header? ('[' :: inner) =
        some (.openTable path key ⟨'[' :: inner, stop⟩, stop) := by
      unfold header?
      split
      · next heq =>
        cases heq
        exact absurd hkey not_key?_of_bracket
      · next heq =>
        cases heq
        rw [hkey]
        rfl
      · next hnone => exact absurd rfl (hnone _)
    change (header? ('[' :: inner)).bind _ = _
    rw [hheader, Option.bind_some]
    dsimp only
    rw [hend]
    rfl
  | @openElement inner stop rest path key hkey hend =>
    have hheader : header? ('[' :: '[' :: inner) =
        some (.openElement path key ⟨'[' :: '[' :: inner, stop⟩, stop) := by
      rw [header?, hkey]
      rfl
    change (header? ('[' :: '[' :: inner)).bind _ = _
    rw [hheader, Option.bind_some]
    dsimp only
    rw [hend]
    rfl

lemma statement?_spared (h : statement? cs = some (s, rest)) (hspares : e.Spares cs rest) :
    statement? (e.shift cs) = some ((e.revision x).statement s, e.shift rest) := by
  have hvalues : e.Exchanges (value? (depthLimit - 1)) (fun x => (e.revision x).value) id :=
    value?_exchanges (by decide)
  apply statement?_of_form
  cases statement?_form h with
  | @assign cs stop rest a ha hend =>
    have hstop := endOfLine?_suffix hend
    exact .assign (hvalues.assignment.spared x _ _ _ ha (hspares.mono List.suffix_rfl hstop)
      (ended_of_endOfLine? hend))
      (endOfLine?_shift hend (hspares.mono (hvalues.assignment.suffix _ _ _ ha) List.suffix_rfl))
  | @openTable inner stop rest path key hkey hend =>
    have hstop := endOfLine?_suffix hend
    have hinner := (key?_within hkey).suffix
    have hstopInner := (List.suffix_cons _ _).trans hinner
    have hspares' : e.Spares inner stop := hspares.mono (List.suffix_cons _ _) hstop
    have hkey' := key?_shift (x := x) hkey hspares'
    have hend' := endOfLine?_shift hend (hspares.mono (suffix_cons_of hstopInner) List.suffix_rfl)
    rw [Revision.statement, revision_span,
      shift_cons (hspares.mono List.suffix_rfl (hstop.trans hstopInner))]
    exact .openTable hkey' hend'
  | @openElement inner stop rest path key hkey hend =>
    have hstop := endOfLine?_suffix hend
    have hinner := (key?_within hkey).suffix
    have hstopInner := (List.suffix_append [_, _] stop).trans hinner
    have hspares' : e.Spares inner rest := hspares.mono (List.suffix_append [_, _] _) List.suffix_rfl
    have hbracket : e.Spares (']' :: stop) rest :=
      hspares'.mono ((List.suffix_cons _ _).trans hinner) List.suffix_rfl
    have hkey' := key?_shift (x := x) hkey
      (hspares'.mono List.suffix_rfl (hstop.trans (List.suffix_cons _ _)))
    rw [shift_cons (hbracket.mono List.suffix_rfl hstop)] at hkey'
    have hend' := endOfLine?_shift hend (hbracket.mono (List.suffix_cons _ _) List.suffix_rfl)
    have hlast : rest <:+ inner := hstop.trans hstopInner
    rw [Revision.statement, revision_span, shift_cons (hspares.mono List.suffix_rfl
      (hlast.trans (List.suffix_cons _ _))), shift_cons (hspares.mono (List.suffix_cons _ _) hlast)]
    exact .openElement hkey' hend'

/-- A statement that assigns the digit assigns the literal. -/
lemma statement?_held {a : Assignment} (h : statement? cs = some (.assign a, rest))
    (hold : HasAt a.value e.old) : rest.length < e.old.length ∧ statement? (e.shift cs) =
      e.fill?.bind fun x => some ((e.revision x).statement (.assign a), rest) := by
  have hvalues : e.Exchanges (value? (depthLimit - 1)) (fun x => (e.revision x).value) id :=
    value?_exchanges (by decide)
  cases statement?_form h with
  | @assign cs stop rest a ha hend =>
    have hended := ended_of_endOfLine? hend
    obtain ⟨hplace, hlt⟩ := hvalues.assignment.place ha hended hold
    refine ⟨Nat.lt_of_le_of_lt (endOfLine?_suffix hend).length_le hlt, ?_⟩
    rw [statement?_of_assignment (shift_ne (by decide) (.inl hplace) (ne_bracket_of_assignment? ha)),
      hvalues.assignment.held _ _ _ ha hended hold]
    · refine Option.bind_congr fun x _ => ?_
      rw [hend]
      rfl
    · intro a r hr
      rw [Option.map_eq_none_iff]
      by_contra hsome
      obtain ⟨rest', hrest'⟩ := Option.ne_none_iff_exists'.1 hsome
      exact hr (ended_of_endOfLine? hrest')

end Statements

/-! ### Documents -/

section Documents

variable {e : Exchange} {c : Char} {cs line note rest before : List Char} {s : Statement}
  {ss done : List Statement} {fuel : Nat} {x : Scalar} {t : Table Value}

lemma statementsFrom_done (h : skipBlanks cs = []) :
    statementsFrom done (fuel + 1) cs = some done.reverse := by
  rw [statementsFrom, h]

lemma statementsFrom_note (h : skipBlanks cs = '#' :: note) : statementsFrom done (fuel + 1) cs =
    (endOfLine? ('#' :: note)).bind (statementsFrom done fuel) := by
  rw [statementsFrom, h]
  rfl

lemma statementsFrom_empty (h : newline? (skipBlanks cs) = some rest) :
    statementsFrom done (fuel + 1) cs = statementsFrom done fuel rest := by
  rcases eq_of_newline? h with heq | heq
  · rw [statementsFrom, heq]
    rfl
  · rw [statementsFrom, heq]
    rfl

lemma statementsFrom_statement (h : skipBlanks cs = c :: line) (hnote : c ≠ '#')
    (hline : newline? (c :: line) = none) : statementsFrom done (fuel + 1) cs =
      (statement? (c :: line)).bind fun r => statementsFrom (r.1 :: done) fuel r.2 := by
  rw [statementsFrom]
  split
  · next heq =>
    rw [h] at heq
    cases heq
  · next heq =>
    rw [h] at heq
    cases heq
    exact absurd rfl hnote
  · rw [h, hline]
    rfl

lemma length_statement?_lt (h : statement? cs = some (s, rest)) : rest.length < cs.length := by
  have hplaced := statement?_placed h
  have hkey : ∀ k ∈ Statement.keys s, rest.length < cs.length := fun k hk =>
    Nat.lt_of_lt_of_le (hplaced.keys k hk).2 (hplaced.keys k hk).1.start.length_le
  cases s with
  | assign a => exact hkey a.key (by simp [Statement.keys])
  | openTable path key span => exact hkey key (by simp [Statement.keys])
  | openElement path key span => exact hkey key (by simp [Statement.keys])

/-- Lines are read with more fuel than they have characters. -/
lemma lines_read (h : LinesForm cs ss) (hfuel : cs.length < fuel) :
    statementsFrom done fuel cs = some (done.reverse ++ ss) := by
  have hblanks : ∀ cs, (skipBlanks cs).length ≤ cs.length :=
    fun cs => (List.dropWhile_suffix _).length_le
  induction h generalizing done fuel with
  | done h =>
    obtain ⟨n, rfl⟩ := Nat.exists_eq_add_of_lt hfuel
    rw [statementsFrom_done h, List.append_nil]
  | @note cs note rest ss h hend _ ih =>
    obtain ⟨n, rfl⟩ := Nat.exists_eq_add_of_lt hfuel
    have hnote := hblanks cs
    have hrest := (suffix_of_note hend).length_le
    rw [h, List.length_cons] at hnote
    rw [statementsFrom_note h, hend, Option.bind_some, ih (by omega)]
  | @empty cs rest ss h _ ih =>
    obtain ⟨n, rfl⟩ := Nat.exists_eq_add_of_lt hfuel
    have hline := hblanks cs
    have hrest := length_newline?_lt h
    rw [statementsFrom_empty h, ih (by omega)]
  | @statement cs line rest c s ss h hnote hline hs _ ih =>
    obtain ⟨n, rfl⟩ := Nat.exists_eq_add_of_lt hfuel
    have hstart := hblanks cs
    have hrest := length_statement?_lt hs
    rw [h] at hstart
    rw [statementsFrom_statement h hnote hline, hs, Option.bind_some, ih (by omega)]
    simp

/-- Statements behind the digit stay as they are. -/
lemma lines_behind (h : LinesForm cs ss) (hlt : cs.length < e.old.length) :
    ss.map (e.revision x).statement = ss := by
  have hblanks : ∀ cs, (skipBlanks cs).length ≤ cs.length :=
    fun cs => (List.dropWhile_suffix _).length_le
  induction h with
  | done => rfl
  | @note cs note rest ss h hend _ ih =>
    have hnote := hblanks cs
    have hrest := (suffix_of_note hend).length_le
    rw [h, List.length_cons] at hnote
    exact ih (by omega)
  | @empty cs rest ss h _ ih =>
    have hline := hblanks cs
    have hrest := length_newline?_lt h
    exact ih (by omega)
  | @statement cs line rest c s ss h hnote hline hs _ ih =>
    have hstart := hblanks cs
    have hrest := length_statement?_lt hs
    rw [h] at hstart
    have hsame := statement?_spared (x := x) hs (.inr (Nat.lt_of_le_of_lt hstart hlt))
    rw [e.shift_of_lt (Nat.lt_of_le_of_lt hstart hlt), hs] at hsame
    rw [List.map_cons, ih (by omega), ← (Prod.mk.inj (Option.some.inj hsame)).1]

lemma mem_assignedValues_cons {v : Value} (h : v ∈ assignedValues (s :: ss)) :
    (∃ a, s = .assign a ∧ v = a.value) ∨ v ∈ assignedValues ss := by
  cases s with
  | assign a => exact (List.mem_cons.1 h).imp_left fun hv => ⟨a, rfl, hv⟩
  | openTable => exact .inr h
  | openElement => exact .inr h

lemma newline?_shift (h : newline? cs = some rest) (hplace : e.old <:+ rest) :
    newline? (e.shift cs) = some (e.shift rest) := by
  obtain ⟨w, rfl⟩ := hplace
  obtain ⟨u, rfl⟩ := (List.suffix_append w e.old).trans (newline?_suffix h)
  rw [e.shift_append, e.shift_append]
  exact newline?_before h

lemma newline?_shift_none (h : newline? cs = none) (hplace : e.old <:+ cs) :
    newline? (e.shift cs) = none := by
  obtain ⟨u, rfl⟩ := hplace
  rw [e.shift_append]
  exact newline?_before_of_none e.bare h

/-- The digit is behind the first character of what is longer. -/
lemma suffix_of_cons (h : e.old <:+ c :: line) (hlt : e.old.length < (c :: line).length) :
    e.old <:+ line := by
  rcases List.suffix_cons_iff.1 h with heq | hsuffix
  · exact absurd (congrArg List.length heq) (Nat.ne_of_lt hlt)
  · exact hsuffix

lemma statementsFrom_shift (h : skipBlanks cs = c :: line) (hnote : c ≠ '#')
    (hline : newline? (c :: line) = none) (hplace : e.old <:+ line) :
    statementsFrom done (fuel + 1) (e.shift cs) =
      (statement? (e.shift (c :: line))).bind fun r => statementsFrom (r.1 :: done) fuel r.2 := by
  have hcons : e.shift (c :: line) = c :: e.shift line := shift_cons (.inl hplace)
  have hline' := newline?_shift_none hline (hplace.trans (List.suffix_cons c line))
  rw [hcons] at hline' ⊢
  exact statementsFrom_statement (skipBlanks_shift_cons h (.inl hplace)) hnote hline'

/-- The statements with the literal are those with the digit, but for the literal. -/
lemma lines_held (h : LinesForm cs ss) (hold : ∃ v ∈ assignedValues ss, HasAt v e.old)
    (hfuel : (e.shift cs).length < fuel) : statementsFrom done fuel (e.shift cs) =
      e.fill?.bind fun x => some (done.reverse ++ ss.map (e.revision x).statement) := by
  induction h generalizing done fuel with
  | done => exact absurd hold (by simp [assignedValues])
  | @note cs note rest ss h hend hnext ih =>
    obtain ⟨v, hv, hat⟩ := id hold
    have hplace := (hnext.spread.within v hv _ hat).1
    have hnote : '#' :: note <:+ cs := h ▸ List.dropWhile_suffix _
    have hrest := suffix_of_note hend
    have hspares : e.Spares cs note := .inl (hplace.trans hrest)
    have hcons : e.shift ('#' :: note) = '#' :: e.shift note := shift_cons (.inl (hplace.trans hrest))
    have hend' := endOfLine?_shift hend (.inl hplace)
    rw [hcons] at hend'
    have hlt := length_shift_lt hspares hnote
    have hle : (e.shift rest).length ≤ (e.shift note).length := length_shift_le (.inl hplace) hrest
    obtain ⟨n, rfl⟩ := Nat.exists_eq_add_of_lt hfuel
    rw [statementsFrom_note (skipBlanks_shift_cons h hspares), hend', Option.bind_some,
      ih hold (by omega)]
  | @empty cs rest ss h hnext ih =>
    obtain ⟨v, hv, hat⟩ := id hold
    have hplace := (hnext.spread.within v hv _ hat).1
    have hblanks : skipBlanks cs <:+ cs := List.dropWhile_suffix _
    have hcs := (hplace.trans (newline?_suffix h)).trans hblanks
    have hline : newline? (skipBlanks (e.shift cs)) = some (e.shift rest) := by
      rw [skipBlanks_shift (.inl hcs)]
      exact newline?_shift h hplace
    have hlt := length_newline?_lt hline
    have hle : (skipBlanks (e.shift cs)).length ≤ (e.shift cs).length :=
      (List.dropWhile_suffix _).length_le
    obtain ⟨n, rfl⟩ := Nat.exists_eq_add_of_lt hfuel
    rw [statementsFrom_empty hline, ih hold (by omega)]
  | @statement cs line rest c s ss h hnote hline hs hnext ih =>
    have hstart : c :: line <:+ cs := h ▸ List.dropWhile_suffix _
    obtain ⟨v, hv, hat⟩ := hold
    rcases mem_assignedValues_cons hv with ⟨a, rfl, rfl⟩ | hlater
    · obtain ⟨text, htext, hlt, hspread⟩ := statement?_spread hs
      have hold := (hspread.within _ hat).1
      have hplace := suffix_of_cons (hold.trans htext) (Nat.lt_of_le_of_lt hold.length_le hlt)
      obtain ⟨hbehind, hheld⟩ := statement?_held hs hat
      have hshorter := length_lt_shift ((hplace.trans (List.suffix_cons c line)).trans hstart) hbehind
      obtain ⟨n, rfl⟩ := Nat.exists_eq_add_of_lt hfuel
      rw [statementsFrom_shift h hnote hline hplace, hheld, Option.bind_assoc]
      refine Option.bind_congr fun x _ => ?_
      rw [Option.bind_some, lines_read hnext (by omega), List.map_cons, lines_behind hnext hbehind]
      simp
    · obtain ⟨hplace, hlt⟩ := hnext.spread.within v hlater _ hat
      have hrest := (statement?_placed hs).suffix
      have hbehind := suffix_of_cons (hplace.trans hrest)
        (Nat.lt_of_le_of_lt hplace.length_le (length_statement?_lt hs))
      have hspares : e.Spares (c :: line) rest := .inl hplace
      have hshorter : (e.shift rest).length < (e.shift cs).length := by
        have hnext := length_statement?_lt (statement?_spared (x := .boolean true) hs hspares)
        have hle : (e.shift (c :: line)).length ≤ (e.shift cs).length :=
          length_shift_le (.inl (hbehind.trans (List.suffix_cons c line))) hstart
        omega
      obtain ⟨n, rfl⟩ := Nat.exists_eq_add_of_lt hfuel
      rw [statementsFrom_shift h hnote hline hbehind,
        statement?_spared (x := .boolean true) hs hspares, Option.bind_some,
        ih ⟨v, hlater, hat⟩ (by omega)]
      refine Option.bind_congr fun x _ => ?_
      have hsame := statement?_spared (x := x) hs hspares
      rw [statement?_spared (x := .boolean true) hs hspares] at hsame
      rw [(Prod.mk.inj (Option.some.inj hsame)).1]
      simp

/-- A byte order mark is in front of the digit. -/
lemma withoutMark_append (h : e.old.length < (withoutMark (before ++ e.old)).length) :
    ∃ u, withoutMark (before ++ e.old) = u ++ e.old ∧ withoutMark (before ++ e.new) = u ++ e.new := by
  cases before with
  | nil =>
    have hsame : withoutMark e.old = e.old := rfl
    rw [List.nil_append, hsame] at h
    exact absurd h (Nat.lt_irrefl _)
  | cons c b =>
    by_cases hmark : c = '\uFEFF'
    · subst hmark
      exact ⟨b, rfl, rfl⟩
    · have hsame : ∀ cs, withoutMark (c :: cs) = c :: cs :=
        fun cs => withoutMark_of_ne fun rest heq => hmark (List.cons.inj heq).1
      exact ⟨c :: b, hsame _, hsame _⟩

/-- A document with the literal in the place of a value is the document with that value, if the
literal is read as one, and no document else. -/
theorem document?_exchange (h : document? (before ++ e.old) = some t)
    (hold : HasAt (.table t) e.old) :
    document? (before ++ e.new) = e.fill?.map fun x => (e.revision x).table t := by
  obtain ⟨-, ss, hss, hof, honly⟩ := document?_spread h
  have hform := statements?_form hss
  have hheld := honly _ hold
  obtain ⟨v, hv, hat⟩ := id hheld
  obtain ⟨u, hu, hu'⟩ := withoutMark_append (hform.spread.within v hv _ hat).2
  rw [hu] at hform
  have hstatements : statements? (before ++ e.new) =
      e.fill?.bind fun x => some (ss.map (e.revision x).statement) := by
    rw [statements?_eq, hu', ← e.shift_append, lines_held hform hheld (Nat.lt_succ_self _)]
    rfl
  rw [document?, hstatements, Option.map_eq_bind]
  cases e.fill? with
  | none => rfl
  | some x =>
    have htable := (e.revision x).ofStatements?_map ss
    rw [hof] at htable
    exact htable

end Documents

end Exchange

end MemberRelay.Proofs
