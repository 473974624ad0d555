import MemberRelay.Proofs.Toml.Forms
import MemberRelay.Proofs.Toml.Rests

/-!
# Where statements stand

The keys of a statement, its value and its header are pieces of the text that it was read from, and
statements and their keys stand there in their order.
-/

namespace MemberRelay.Proofs
open Toml

/-- A span of a text between two of its ends. -/
structure Within (cs : List Char) (s : Span) (rest : List Char) : Prop where
  start : s.start <:+ cs
  stop : s.stop <:+ s.start
  rest : rest <:+ s.stop

/-- One key stands before another one. -/
def Before (k k' : Key) : Prop := k'.span.start.length < k.span.start.length

/-- Keys between two ends of a text, in their order. -/
structure KeysWithin (cs : List Char) (keys : List Key) (rest : List Char) : Prop where
  suffix : rest <:+ cs
  within : ∀ k ∈ keys, Within cs k.span rest
  sorted : keys.Pairwise Before

/-- The keys that a statement writes. -/
def Statement.keys : Statement → List Key
  | .assign a => a.path ++ [a.key]
  | .openTable path key _ => path ++ [key]
  | .openElement path key _ => path ++ [key]

/-- The span of the value that is assigned, or of the header. -/
def Statement.span? : Statement → Option Span
  | .assign a => a.value.span?
  | .openTable _ _ span => some span
  | .openElement _ _ span => some span

/-- A reader whose values have the span of what it takes. -/
def ReadsSpan (read? : Reader Value) : Prop :=
  ∀ cs v rest, read? cs = some (v, rest) → rest <:+ cs ∧ v.span? = some ⟨cs, rest⟩

/-- A statement in its text: the keys in their order, and the span of the value or of the header. -/
structure Placed (cs : List Char) (s : Statement) (rest : List Char) : Prop where
  suffix : rest <:+ cs
  keys : ∀ k ∈ Statement.keys s, Within cs k.span rest ∧ rest.length < k.span.start.length
  sorted : (Statement.keys s).Pairwise Before
  span : ∃ span, Statement.span? s = some span ∧ Within cs span rest

/-- Statements one after another. -/
inductive Stand : List Char → List Statement → Prop where
  | nil {cs : List Char} : Stand cs []
  | cons {cs rest : List Char} {s : Statement} {ss : List Statement} (h : Placed cs s rest)
      (hnext : Stand rest ss) : Stand cs (s :: ss)

section Places

variable {cs cs' rest rest' : List Char} {s : Span}

lemma Within.suffix (h : Within cs s rest) : rest <:+ cs :=
  (h.rest.trans h.stop).trans h.start

lemma Within.mono (h : Within cs s rest) (hcs : cs <:+ cs')
    (hrest : rest' <:+ rest) : Within cs' s rest' :=
  ⟨h.start.trans hcs, h.stop, hrest.trans h.rest⟩

lemma Placed.mono {s : Statement} (h : Placed cs s rest) (hcs : cs <:+ cs') (hrest : rest' <:+ rest) :
    Placed cs' s rest' where
  suffix := (hrest.trans h.suffix).trans hcs
  keys k hk :=
    ⟨(h.keys k hk).1.mono hcs hrest, Nat.lt_of_le_of_lt hrest.length_le (h.keys k hk).2⟩
  sorted := h.sorted
  span :=
    let ⟨span, hspan, hwithin⟩ := h.span
    ⟨span, hspan, hwithin.mono hcs hrest⟩

lemma Stand.mono {ss : List Statement} (h : Stand cs ss) (hcs : cs <:+ cs') : Stand cs' ss := by
  cases h with
  | nil => exact .nil
  | cons h hnext => exact .cons (h.mono hcs List.suffix_rfl) hnext

end Places

/-! ### Keys -/

section Keys

variable {cs rest : List Char}

lemma keyPart?_within {key : Key} (h : keyPart? cs = some (key, rest)) : Within cs key.span rest := by
  unfold keyPart? at h
  split at h
  · obtain ⟨⟨name, stop⟩, hname, heq⟩ := Option.map_eq_some_iff.1 h
    cases heq
    exact ⟨List.suffix_rfl, lineString?_suffix _ _ _ hname, List.suffix_rfl⟩
  · cases h
    exact ⟨List.suffix_rfl, List.dropWhile_suffix _, List.suffix_rfl⟩

lemma keyFrom?_within {limit : Nat} {keys : List Key} (h : keyFrom? limit cs = some (keys, rest)) :
    KeysWithin cs keys rest := by
  induction limit generalizing cs keys rest with
  | zero => cases h
  | succ limit ih =>
    obtain ⟨⟨key, stop⟩, hkey, h⟩ := Option.bind_eq_some_iff.1 h
    have hwithin := keyPart?_within hkey
    have hblanks : skipBlanks cs <:+ cs := List.dropWhile_suffix _
    have hstop : skipBlanks stop <:+ stop := List.dropWhile_suffix _
    dsimp only at h
    split at h
    · next next hpoint =>
      obtain ⟨⟨keys', rest'⟩, hkeys, h⟩ := Option.bind_eq_some_iff.1 h
      cases h
      have hrest := ih hkeys
      -- the point stands between the first key and the others
      have hpoint' : '.' :: next <:+ stop := hpoint ▸ hstop
      have hnext : next <:+ stop := (List.suffix_cons _ _).trans hpoint'
      have hcs : next <:+ cs := (hnext.trans hwithin.suffix).trans hblanks
      refine ⟨hrest.suffix.trans hcs, ?_, List.pairwise_cons.2 ⟨?_, hrest.sorted⟩⟩
      · refine List.forall_mem_cons.2 ⟨hwithin.mono hblanks (hrest.suffix.trans hnext), ?_⟩
        exact fun k hk => (hrest.within k hk).mono hcs List.suffix_rfl
      · intro k hk
        have hstart := (hrest.within k hk).start.length_le
        have hlength := (hpoint'.trans (hwithin.rest.trans hwithin.stop)).length_le
        rw [List.length_cons] at hlength
        unfold Before
        omega
    · next hpoint =>
      cases h
      refine ⟨(hstop.trans hwithin.suffix).trans hblanks, ?_, List.pairwise_singleton _ _⟩
      exact List.forall_mem_singleton.2 (hwithin.mono hblanks hstop)

lemma key?_within {path : List Key} {key : Key} (h : key? cs = some ((path, key), rest)) :
    KeysWithin cs (path ++ [key]) rest := by
  obtain ⟨⟨keys, stop⟩, hkeys, h⟩ := Option.bind_eq_some_iff.1 h
  obtain ⟨last, hlast, h⟩ := Option.bind_eq_some_iff.1 h
  cases h
  rw [List.dropLast_append_getLast? _ hlast]
  exact keyFrom?_within hkeys

end Keys

/-! ### Values -/

section Values

variable {cs rest : List Char} {read? : Reader Value} (hread : ReadsSpan read?)
include hread

lemma itemsFrom_suffix {done items : List Value} {fuel : Nat}
    (h : itemsFrom read? done fuel cs = some (items, rest)) : rest <:+ cs := by
  induction fuel generalizing done cs with
  | zero => cases h
  | succ fuel ih =>
    have hfiller := skipFiller_suffix false cs
    rw [itemsFrom] at h
    split at h
    · next heq =>
      cases h
      rw [heq] at hfiller
      exact (List.suffix_cons _ _).trans hfiller
    · obtain ⟨⟨item, stop⟩, hitem, h⟩ := Option.bind_eq_some_iff.1 h
      have hstop := (hread _ _ _ hitem).1
      have hfiller' := skipFiller_suffix false stop
      dsimp only at h
      split at h
      · next next heq =>
        rw [heq] at hfiller'
        calc rest <:+ next := ih h
          _ <:+ ',' :: next := List.suffix_cons _ _
          _ <:+ stop := hfiller'
          _ <:+ _ := hstop
          _ <:+ cs := hfiller
      · next heq =>
        cases h
        rw [heq] at hfiller'
        exact (((List.suffix_cons _ _).trans hfiller').trans hstop).trans hfiller
      · cases h

lemma assignment?_placed {a : Assignment} (h : assignment? read? cs = some (a, rest)) :
    Placed cs (.assign a) rest := by
  obtain ⟨⟨⟨path, key⟩, cs₁⟩, hkey, h⟩ := Option.bind_eq_some_iff.1 h
  obtain ⟨after, hmark, h⟩ := Option.bind_eq_some_iff.1 h
  obtain ⟨⟨v, stop⟩, hv, h⟩ := Option.bind_eq_some_iff.1 h
  cases h
  have hkeys := key?_within hkey
  obtain ⟨hrest, hspan⟩ := hread _ _ _ hv
  have hblanks : skipBlanks after <:+ after := List.dropWhile_suffix _
  -- the mark stands between the keys and the value
  have hafter : '=' :: after = cs₁ := (Reader.literal?_eq_some_iff.1 hmark).symm
  have hmarked : rest <:+ after := hrest.trans hblanks
  have hcs₁ : after <:+ cs₁ := hafter ▸ List.suffix_cons _ _
  refine ⟨(hmarked.trans hcs₁).trans hkeys.suffix, ?_, hkeys.sorted, _, hspan, ?_⟩
  · intro k hk
    have hwithin := hkeys.within k hk
    have hlength := (hwithin.rest.trans hwithin.stop).length_le
    have hmark := hmarked.length_le
    rw [← hafter, List.length_cons] at hlength
    exact ⟨hwithin.mono List.suffix_rfl (hmarked.trans hcs₁), by omega⟩
  · exact ⟨(hblanks.trans hcs₁).trans hkeys.suffix, hrest, List.suffix_rfl⟩

lemma assignmentsFrom_stand {done assignments : List Assignment} {fuel : Nat}
    (h : assignmentsFrom read? done fuel cs = some (assignments, rest)) :
    rest <:+ cs ∧ ∃ as, assignments = done.reverse ++ as ∧ Stand cs (as.map .assign) := by
  induction fuel generalizing done cs with
  | zero => cases h
  | succ fuel ih =>
    obtain ⟨⟨a, stop⟩, ha, h⟩ := Option.bind_eq_some_iff.1 h
    have hplaced := assignment?_placed hread ha
    have hblanks : skipBlanks stop <:+ stop := List.dropWhile_suffix _
    dsimp only at h
    split at h
    · next next heq =>
      rw [heq] at hblanks
      have hnext := (List.suffix_cons _ next).trans hblanks
      obtain ⟨hrest, as, rfl, hstand⟩ := ih h
      refine ⟨(hrest.trans hnext).trans hplaced.suffix, a :: as, ?_, .cons hplaced (hstand.mono hnext)⟩
      rw [List.reverse_cons, List.append_assoc, List.singleton_append]
    · next heq =>
      cases h
      rw [heq] at hblanks
      refine ⟨((List.suffix_cons _ _).trans hblanks).trans hplaced.suffix, [a], ?_,
        .cons hplaced .nil⟩
      rw [List.reverse_cons]
    · cases h

lemma braced?_stand {as : List Assignment} (h : braced? read? cs = some (as, rest)) :
    rest <:+ cs ∧ Stand cs (as.map .assign) := by
  have hblanks : skipBlanks cs <:+ cs := List.dropWhile_suffix _
  rw [braced?] at h
  split at h
  · next heq =>
    cases h
    rw [heq] at hblanks
    exact ⟨(List.suffix_cons _ _).trans hblanks, .nil⟩
  · obtain ⟨hrest, as, rfl, hstand⟩ := assignmentsFrom_stand hread h
    exact ⟨hrest, hstand⟩

omit hread

/-- A value has the span of what its reader takes. -/
lemma value?_span (depth : Nat) : ReadsSpan (value? depth) := by
  induction depth with
  | zero =>
    intro cs v rest h
    obtain ⟨⟨s, stop⟩, hs, heq⟩ := Option.map_eq_some_iff.1 h
    cases heq
    exact ⟨scalar?_suffix _ _ _ hs, rfl⟩
  | succ depth ih =>
    intro cs v rest h
    cases value?_form h with
    | scalar hs => exact ⟨scalar?_suffix _ _ _ hs, rfl⟩
    | array hitems => exact ⟨suffix_cons_of (itemsFrom_suffix ih hitems), rfl⟩
    | braces hbraced => exact ⟨suffix_cons_of (braced?_stand ih hbraced).1, rfl⟩

end Values

/-! ### Documents -/

section Documents

variable {cs inner rest brackets : List Char} {s : Statement} {ss : List Statement}

/-- A header is its keys between brackets. -/
lemma placed_header {path : List Key} {key : Key} (hinner : inner <:+ cs)
    (hkey : key? inner = some ((path, key), ']' :: brackets)) (hrest : rest <:+ brackets)
    (hkeys : Statement.keys s = path ++ [key]) (hspan : Statement.span? s = some ⟨cs, rest⟩) :
    Placed cs s rest := by
  have hwithin := key?_within hkey
  have hbracket : rest <:+ ']' :: brackets := suffix_cons_of hrest
  have hsuffix := (hbracket.trans hwithin.suffix).trans hinner
  refine ⟨hsuffix, ?_, ?_, _, hspan, List.suffix_rfl, hsuffix, List.suffix_rfl⟩
  · rw [hkeys]
    intro k hk
    have hk' := hwithin.within k hk
    have hlength := (hk'.rest.trans hk'.stop).length_le
    have hrest' := hrest.length_le
    rw [List.length_cons] at hlength
    exact ⟨hk'.mono hinner hbracket, by omega⟩
  · rw [hkeys]
    exact hwithin.sorted

lemma statement?_placed (h : statement? cs = some (s, rest)) : Placed cs s rest := by
  cases statement?_form h with
  | assign ha hend =>
    exact (assignment?_placed (value?_span _) ha).mono List.suffix_rfl (endOfLine?_suffix hend)
  | openTable hkey hend =>
    refine Placed.mono ?_ List.suffix_rfl (endOfLine?_suffix hend)
    exact placed_header (List.suffix_cons _ _) hkey List.suffix_rfl rfl rfl
  | openElement hkey hend =>
    refine Placed.mono ?_ List.suffix_rfl (endOfLine?_suffix hend)
    exact placed_header (List.suffix_append [_, _] _) hkey (List.suffix_cons _ _) rfl rfl

lemma statementsFrom_stand {done : List Statement} {fuel : Nat}
    (h : statementsFrom done fuel cs = some ss) : ∃ new, ss = done.reverse ++ new ∧ Stand cs new := by
  induction fuel generalizing done cs with
  | zero => cases h
  | succ fuel ih =>
    have hblanks : skipBlanks cs <:+ cs := List.dropWhile_suffix _
    rw [statementsFrom] at h
    split at h
    · cases h
      exact ⟨[], (List.append_nil _).symm, .nil⟩
    · next note heq =>
      obtain ⟨next, hend, h⟩ := Option.bind_eq_some_iff.1 h
      obtain ⟨new, rfl, hstand⟩ := ih h
      rw [heq] at hblanks
      exact ⟨new, rfl, hstand.mono ((endOfLine?_suffix hend).trans hblanks)⟩
    · split at h
      · next next hend =>
        obtain ⟨new, rfl, hstand⟩ := ih h
        exact ⟨new, rfl, hstand.mono ((newline?_suffix hend).trans hblanks)⟩
      · obtain ⟨⟨s, next⟩, hs, h⟩ := Option.bind_eq_some_iff.1 h
        obtain ⟨new, rfl, hstand⟩ := ih h
        refine ⟨s :: new, ?_, .cons ((statement?_placed hs).mono hblanks List.suffix_rfl) hstand⟩
        rw [List.reverse_cons, List.append_assoc, List.singleton_append]

/-- The statements of a text stand in it one after another. -/
theorem statements?_stand (h : statements? cs = some ss) : Stand cs ss := by
  unfold statements? at h
  split at h
  · obtain ⟨new, rfl, hstand⟩ := statementsFrom_stand h
    exact hstand.mono (List.suffix_cons _ _)
  · obtain ⟨new, rfl, hstand⟩ := statementsFrom_stand h
    exact hstand

end Documents

end MemberRelay.Proofs
