import MemberRelay.Proofs.Toml.Bounded
import MemberRelay.Proofs.Toml.Revision
import MemberRelay.Proofs.Toml.Spread

/-!
# Another literal in its place

Where a document has the digit `0` for a value, another literal may stand. A text that is read as one
value there gives the same document with that value in it, and any other text gives none.
-/

namespace MemberRelay.Proofs
open Toml

/-- Another literal for a digit of a text. `new` is the text from the literal on, and `after` the
text behind it, which stays. -/
structure Exchange where
  new : List Char
  after : List Char
  bare : Bare new
  longer : after.length < new.length
  hole : ∀ s rest, scalar? ('0' :: after) = some (s, rest) → rest = after
  whole : ∀ s rest, scalar? new = some (s, rest) → Ended rest → rest = after

namespace Exchange

variable (e : Exchange)

/-- The text from the digit on. -/
def old : List Char := '0' :: e.after

/-- What becomes of the end of a text. -/
def shift (cs : List Char) : List Char :=
  if e.old.length ≤ cs.length then cs.take (cs.length - e.old.length) ++ e.new else cs

/-- The revision that puts a scalar in the place of the digit. -/
def revision (x : Scalar) : Revision where
  text := e.shift
  scalar span s := if span.start = e.old then x else s

lemma revision_span (x : Scalar) (s : Span) :
    (e.revision x).span s = ⟨e.shift s.start, e.shift s.stop⟩ := rfl

/-- What the literal is read as, if it is one value. -/
def fill? : Option Scalar :=
  (scalar? e.new).bind fun r => if Ended r.2 then some r.1 else none

/-- The digit is not in the piece of a text before a rest. -/
def Spares (cs rest : List Char) : Prop := e.old <:+ rest ∨ cs.length < e.old.length

/-! ### Ends of texts -/

section Shift

variable {c : Char} {cs cs' rest rest' u w : List Char}

lemma old_bare : Bare e.old := ⟨'0', e.after, rfl, by decide, by decide⟩

lemma shift_append : e.shift (u ++ e.old) = u ++ e.new := by
  rw [shift, if_pos (by simp), List.length_append, Nat.add_sub_cancel, List.take_left']
  rfl

lemma shift_cons_append : e.shift (c :: (u ++ e.old)) = c :: (u ++ e.new) :=
  e.shift_append (u := c :: u)

lemma shift_old : e.shift e.old = e.new := e.shift_append (u := [])

lemma shift_of_lt (h : cs.length < e.old.length) : e.shift cs = cs := by
  rw [shift, if_neg (by omega)]

variable {e}

lemma Spares.mono (h : e.Spares cs rest) (hcs : cs' <:+ cs) (hrest : rest <:+ rest') :
    e.Spares cs' rest' :=
  h.imp (fun h => h.trans hrest) fun h => Nat.lt_of_le_of_lt hcs.length_le h

lemma shift_cons (h : e.Spares (c :: rest) rest) : e.shift (c :: rest) = c :: e.shift rest := by
  rcases h with ⟨u, rfl⟩ | h
  · rw [← List.cons_append, e.shift_append, e.shift_append, List.cons_append]
  · rw [e.shift_of_lt h, e.shift_of_lt (Nat.lt_of_succ_lt h)]

lemma length_shift_le (h : e.Spares cs rest) (hrest : rest <:+ cs) :
    (e.shift rest).length ≤ (e.shift cs).length := by
  rcases h with ⟨w, rfl⟩ | h
  · obtain ⟨u, rfl⟩ := hrest
    rw [← List.append_assoc, e.shift_append, e.shift_append]
    simp
  · rw [e.shift_of_lt h, e.shift_of_lt (Nat.lt_of_le_of_lt hrest.length_le h)]
    exact hrest.length_le

/-- What stands behind the digit is shorter than the text with the literal. -/
lemma length_lt_shift (hcs : e.old <:+ cs) (hrest : rest.length < e.old.length) :
    rest.length < (e.shift cs).length := by
  obtain ⟨u, rfl⟩ := hcs
  have hlonger := e.longer
  rw [old, List.length_cons] at hrest
  rw [e.shift_append, List.length_append]
  omega

lemma skipBlanks_shift (h : e.old <:+ cs ∨ cs.length < e.old.length) :
    skipBlanks (e.shift cs) = e.shift (skipBlanks cs) := by
  rcases h with ⟨u, rfl⟩ | h
  · rw [e.shift_append, skipBlanks_before e.bare, skipBlanks_before e.old_bare, e.shift_append]
  · have hblanks : (skipBlanks cs).length ≤ cs.length := (List.dropWhile_suffix _).length_le
    rw [e.shift_of_lt h, e.shift_of_lt (Nat.lt_of_le_of_lt hblanks h)]

lemma skipFiller_shift {b : Bool} (h : e.Spares cs (skipFiller b cs)) :
    skipFiller b (e.shift cs) = e.shift (skipFiller b cs) := by
  have hsuffix := skipFiller_suffix b cs
  rcases h with ⟨w, hw⟩ | h
  · obtain ⟨u, rfl⟩ := (hw ▸ List.suffix_append w e.old).trans hsuffix
    rw [← hw, e.shift_append, e.shift_append]
    exact skipFiller_before e.old_bare e.bare hw.symm
  · rw [e.shift_of_lt h, e.shift_of_lt (Nat.lt_of_le_of_lt hsuffix.length_le h)]

lemma skipFiller_shift_cons {b : Bool} (h : skipFiller b cs = c :: rest) (hspares : e.Spares cs rest) :
    skipFiller b (e.shift cs) = c :: e.shift rest := by
  have hsuffix : c :: rest <:+ cs := h ▸ skipFiller_suffix b cs
  rw [skipFiller_shift, h, shift_cons (hspares.mono hsuffix List.suffix_rfl)]
  rw [h]
  exact hspares.mono List.suffix_rfl (List.suffix_cons _ _)

lemma skipBlanks_shift_cons (h : skipBlanks cs = c :: rest) (hspares : e.Spares cs rest) :
    skipBlanks (e.shift cs) = c :: e.shift rest := by
  have hsuffix : c :: rest <:+ cs := h ▸ List.dropWhile_suffix _
  rw [skipBlanks_shift, h, shift_cons (hspares.mono hsuffix List.suffix_rfl)]
  exact hspares.imp_left fun hold => (hold.trans (List.suffix_cons _ _)).trans hsuffix

lemma endOfLine?_shift (h : endOfLine? cs = some rest) (hspares : e.Spares cs rest) :
    endOfLine? (e.shift cs) = some (e.shift rest) := by
  have hsuffix := endOfLine?_suffix h
  rcases hspares with ⟨w, rfl⟩ | hlt
  · obtain ⟨u, rfl⟩ := (List.suffix_append w e.old).trans hsuffix
    rw [e.shift_append, e.shift_append]
    exact endOfLine?_before e.old_bare e.bare h
  · rw [e.shift_of_lt hlt, e.shift_of_lt (Nat.lt_of_le_of_lt hsuffix.length_le hlt), h]

end Shift

/-! ### Keys -/

section Keys

variable {e} {c : Char} {cs rest u w : List Char} {keys path : List Key} {key : Key} {x : Scalar}

lemma shift_span {s : Span} (h : Within cs s rest) (hlt : cs.length < e.old.length) :
    (e.revision x).span s = s := by
  have hstart : s.start.length < e.old.length := Nat.lt_of_le_of_lt h.start.length_le hlt
  have hstop := Nat.lt_of_le_of_lt h.stop.length_le hstart
  obtain ⟨start, stop⟩ := s
  rw [Revision.span]
  simp only [revision]
  rw [e.shift_of_lt hstart, e.shift_of_lt hstop]

lemma keyPart?_append (h : keyPart? (skipBlanks (u ++ e.old)) = some (key, c :: (w ++ e.old))) :
    keyPart? (skipBlanks (u ++ e.new)) = some ((e.revision x).key key, c :: (w ++ e.new)) := by
  rw [skipBlanks_before e.old_bare] at h
  obtain ⟨hspan, hpart⟩ := keyPart?_before (z := e.new) h
  rw [skipBlanks_before e.bare, hpart, Revision.key, Revision.span, hspan]
  simp only [revision]
  rw [e.shift_append, e.shift_cons_append]

lemma keys_append {limit : Nat} (h : KeysForm limit (u ++ e.old) keys (c :: (w ++ e.old))) :
    KeysForm limit (u ++ e.new) (keys.map (e.revision x).key) (c :: (w ++ e.new)) := by
  -- the character behind a part of the key shows that the part ends in front of the digit
  have hstop : ∀ stop, c :: (w ++ e.old) <:+ stop → ∃ d v, stop = d :: (v ++ e.old) := by
    intro stop hsuffix
    obtain ⟨v, rfl⟩ := hsuffix
    cases v with
    | nil => exact ⟨c, w, rfl⟩
    | cons d v => exact ⟨d, v ++ c :: w, by simp⟩
  have hblanks : ∀ cs, skipBlanks cs <:+ cs := fun cs => List.dropWhile_suffix _
  generalize hcs : u ++ e.old = cs, hrest : c :: (w ++ e.old) = rest at h
  induction h generalizing u with
  | @last limit cs stop key hkey h =>
    subst hcs
    obtain ⟨d, v, rfl⟩ := hstop stop (hrest ▸ hblanks stop)
    rw [← List.cons_append (a := d), skipBlanks_before e.old_bare] at h hrest
    have hw : c :: w = skipBlanks (d :: v) := List.append_cancel_right hrest
    have hrest' : c :: (w ++ e.new) = skipBlanks (d :: v ++ e.new) := by
      rw [skipBlanks_before e.bare, ← hw, List.cons_append]
    rw [hrest']
    refine .last (keyPart?_append hkey) fun next hpoint => ?_
    rw [← hw] at h
    rw [← hrest'] at hpoint
    obtain ⟨rfl, -⟩ := List.cons.inj hpoint
    exact h _ rfl
  | @next limit cs stop next rest key keys hkey h hnext ih =>
    subst hcs
    have hnext' := (keyFrom?_within (keyFrom?_iff.2 hnext)).suffix
    have hpoint : c :: (w ++ e.old) <:+ stop := by
      rw [hrest]
      exact hnext'.trans (suffix_of_skipBlanks h)
    obtain ⟨d, v, rfl⟩ := hstop stop hpoint
    have hold : e.old <:+ rest := hrest ▸ List.suffix_append (c :: w) e.old
    obtain ⟨n, rfl⟩ := hold.trans hnext'
    rw [← List.cons_append, skipBlanks_before e.old_bare] at h
    have hn : skipBlanks (d :: v) = '.' :: n := List.append_cancel_right h
    rw [List.map_cons]
    refine .next (keyPart?_append hkey) ?_ (ih rfl hrest)
    rw [← List.cons_append, skipBlanks_before e.bare, hn, List.cons_append]

/-- A key in front of the digit stays, and so does one behind it. -/
lemma key?_shift (h : key? cs = some ((path, key), c :: rest)) (hspares : e.Spares cs rest) :
    key? (e.shift cs) =
      some ((path.map (e.revision x).key, (e.revision x).key key), c :: e.shift rest) := by
  obtain ⟨⟨keys, stop⟩, hkeys, h⟩ := Option.bind_eq_some_iff.1 h
  obtain ⟨last, hlast, h⟩ := Option.bind_eq_some_iff.1 h
  cases h
  have hwithin := keyFrom?_within hkeys
  have hkeys' : keyFrom? (depthLimit - 1) (e.shift cs) =
      some (keys.map (e.revision x).key, c :: e.shift rest) := by
    rcases hspares with ⟨w, rfl⟩ | hlt
    · obtain ⟨u, rfl⟩ := (List.suffix_append (c :: w) e.old).trans hwithin.suffix
      rw [e.shift_append, e.shift_append]
      exact keyFrom?_iff.2 (keys_append (keyFrom?_iff.1 hkeys))
    · have hsame : keys.map (e.revision x).key = keys := by
        refine (List.map_congr_left fun k hk => ?_).trans (List.map_id keys)
        rw [Revision.key, shift_span (hwithin.within k hk) hlt]
        rfl
      have hrest : rest.length < cs.length := hwithin.suffix.length_le
      rw [e.shift_of_lt hlt, e.shift_of_lt (hrest.trans hlt), hsame, hkeys]
  rw [key?, hkeys']
  simp [hlast, List.map_dropLast]

end Keys

/-! ### Readers of values -/

/-- A reader whose pieces may stand around the digit or beside it. A piece beside the digit is read
with the literal as without it. A piece with the digit for a value is read with the literal for it,
as far as a further reader can tell that refuses what does not end there. -/
structure Exchanges {α : Type} (read? : Reader α) (revise : Scalar → α → α) (values : α → Value) :
    Prop where
  suffix : LeavesEnd read?
  spread : ∀ cs a rest, read? cs = some (a, rest) → Spread cs (values a) rest
  spared : ∀ x cs a rest, read? cs = some (a, rest) → e.Spares cs rest → Ended rest →
    read? (e.shift cs) = some (revise x a, e.shift rest)
  held : ∀ cs a rest, read? cs = some (a, rest) → Ended rest → HasAt (values a) e.old →
    ∀ (β : Type) (k : α × List Char → Option β), (∀ a r, ¬Ended r → k (a, r) = none) →
      (read? (e.shift cs)).bind k = e.fill?.bind fun x => k (revise x a, rest)

section Readers

variable {e} {α : Type} {read? : Reader α} {revise : Scalar → α → α} {values : α → Value} {c : Char}
  {cs rest : List Char} {a : α} {x y : Scalar}

/-- What ends a value is not the digit. -/
lemma lt_of_ended (hrest : rest <:+ cs) (hcs : e.old <:+ cs) (hle : rest.length ≤ e.old.length)
    (hend : Ended rest) : rest.length < e.old.length := by
  refine Nat.lt_of_le_of_ne hle fun hlength => ?_
  have hsuffix := List.suffix_of_suffix_length_le hrest hcs hle
  rw [hsuffix.eq_of_length hlength] at hend
  exact not_ended_bare e.old_bare hend

/-- The digit is in the piece that has it for a value, and not in what is left. -/
lemma Exchanges.place (he : e.Exchanges read? revise values) (h : read? cs = some (a, rest))
    (hend : Ended rest) (hold : HasAt (values a) e.old) :
    e.old <:+ cs ∧ rest.length < e.old.length := by
  obtain ⟨hcs, hrest⟩ := (he.spread _ _ _ h).within _ hold
  exact ⟨hcs, lt_of_ended (he.suffix _ _ _ h) hcs hrest hend⟩

/-- A piece without the digit does not tell which literal is put in its place. -/
lemma Exchanges.same (he : e.Exchanges read? revise values) (h : read? cs = some (a, rest))
    (hspares : e.Spares cs rest) (hend : Ended rest) : revise x a = revise y a := by
  have hx := he.spared x _ _ _ h hspares hend
  rw [he.spared y _ _ _ h hspares hend] at hx
  exact (Prod.mk.inj (Option.some.inj hx)).1.symm

lemma length_shift_lt (h : e.Spares cs rest) (hrest : c :: rest <:+ cs) :
    (e.shift rest).length < (e.shift cs).length := by
  have hspares : e.Spares cs (c :: rest) := h.mono List.suffix_rfl (List.suffix_cons c rest)
  have hcons : e.Spares (c :: rest) rest := h.mono hrest List.suffix_rfl
  have hle := length_shift_le hspares hrest
  rw [shift_cons hcons, List.length_cons] at hle
  exact hle

end Readers

/-! ### Arrays -/

section Items

variable {e} {read? : Reader Value} {done vs : List Value} {v : Value} {cs rest stop : List Char}
  {fuel : Nat} {x : Scalar}

/-- What comes after an item of an array. -/
def afterItem (read? : Reader Value) (done : List Value) (fuel : Nat) :
    Value × List Char → Option (List Value × List Char) := fun r =>
  match skipFiller false r.2 with
  | ',' :: rest => itemsFrom read? (r.1 :: done) fuel rest
  | ']' :: rest => some ((r.1 :: done).reverse, rest)
  | _ => none

lemma itemsFrom_close (h : skipFiller false cs = ']' :: rest) :
    itemsFrom read? done (fuel + 1) cs = some (done.reverse, rest) := by
  rw [itemsFrom, h]
  rfl

lemma itemsFrom_open (h : ∀ rest, skipFiller false cs ≠ ']' :: rest) :
    itemsFrom read? done (fuel + 1) cs =
      (read? (skipFiller false cs)).bind (afterItem read? done fuel) := by
  rw [itemsFrom]
  split
  · next heq => exact absurd heq (h _)
  · rfl

lemma afterItem_comma (h : skipFiller false stop = ',' :: rest) :
    afterItem read? done fuel (v, stop) = itemsFrom read? (v :: done) fuel rest := by
  rw [afterItem, h]
  rfl

lemma afterItem_close (h : skipFiller false stop = ']' :: rest) :
    afterItem read? done fuel (v, stop) = some ((v :: done).reverse, rest) := by
  rw [afterItem, h]
  rfl

lemma afterItem_of_not_ended (h : ¬Ended stop) : afterItem read? done fuel (v, stop) = none := by
  rw [afterItem]
  split
  · next heq => exact absurd (ended_of_skipFiller heq (by decide)) h
  · next heq => exact absurd (ended_of_skipFiller heq (by decide)) h
  · rfl

/-- The literal does not start with a character of its own meaning, no more than the digit does. -/
lemma shift_ne {c : Char} (hc : c ∈ specials) (hcs : e.old <:+ cs ∨ cs.length < e.old.length)
    (h : ∀ rest, cs ≠ c :: rest) (rest : List Char) : e.shift cs ≠ c :: rest := by
  rcases hcs with ⟨u, rfl⟩ | hlt
  · rw [e.shift_append]
    cases u with
    | nil => exact fun heq => e.bare.head?_ne hc (congrArg List.head? heq)
    | cons d u =>
      intro heq
      obtain ⟨rfl, -⟩ := List.cons.inj heq
      exact h _ rfl
  · rw [e.shift_of_lt hlt]
    exact h rest

lemma itemsFrom_shift_open (hopen : ∀ rest, skipFiller false cs ≠ ']' :: rest)
    (hspares : e.Spares cs (skipFiller false cs)) :
    itemsFrom read? done (fuel + 1) (e.shift cs) =
      (read? (e.shift (skipFiller false cs))).bind (afterItem read? done fuel) := by
  have hskip := skipFiller_shift hspares
  have hsees : e.old <:+ skipFiller false cs ∨ (skipFiller false cs).length < e.old.length :=
    hspares.imp_right fun h => Nat.lt_of_le_of_lt (skipFiller_suffix false cs).length_le h
  rw [itemsFrom_open, hskip]
  rw [hskip]
  exact shift_ne (by decide) hsees hopen

variable (he : e.Exchanges read? (fun x => (e.revision x).value) id)
include he

lemma items_spared (h : ItemsForm read? cs vs rest) (hspares : e.Spares cs rest)
    (hfuel : (e.shift cs).length ≤ fuel) : itemsFrom read? done fuel (e.shift cs) =
      some (done.reverse ++ vs.map (e.revision x).value, e.shift rest) := by
  have hfiller : ∀ {cs}, skipFiller false cs <:+ cs := fun {cs} => skipFiller_suffix false cs
  induction h generalizing done fuel with
  | @close cs rest h =>
    have hclose : ']' :: rest <:+ cs := h ▸ hfiller
    obtain ⟨n, rfl⟩ := Nat.exists_eq_add_of_lt
      (Nat.lt_of_lt_of_le (length_shift_lt hspares hclose) hfuel)
    rw [itemsFrom_close (skipFiller_shift_cons h hspares), List.map_nil, List.append_nil]
  | @last cs stop rest v hopen hv h =>
    have hstop := he.suffix _ _ _ hv
    have hclose : ']' :: rest <:+ stop := h ▸ hfiller
    have hrest : rest <:+ stop := (List.suffix_cons _ _).trans hclose
    obtain ⟨n, rfl⟩ := Nat.exists_eq_add_of_lt (Nat.lt_of_lt_of_le
      (length_shift_lt hspares ((hclose.trans hstop).trans hfiller)) hfuel)
    rw [itemsFrom_shift_open hopen (hspares.mono List.suffix_rfl (hrest.trans hstop)),
      he.spared x _ _ _ hv (hspares.mono hfiller hrest) (ended_of_skipFiller h (by decide)),
      Option.bind_some, afterItem_close (skipFiller_shift_cons h
        (hspares.mono (hstop.trans hfiller) List.suffix_rfl))]
    simp
  | @next cs stop after rest v vs hopen hv h hnext ih =>
    have hstop := he.suffix _ _ _ hv
    have hcomma : ',' :: after <:+ stop := h ▸ hfiller
    have hafter : after <:+ stop := (List.suffix_cons _ _).trans hcomma
    have hcs := (hafter.trans hstop).trans hfiller
    have hspares' : e.Spares cs after :=
      hspares.mono List.suffix_rfl (hnext.spread he.suffix he.spread).suffix
    obtain ⟨n, rfl⟩ := Nat.exists_eq_add_of_lt (Nat.lt_of_lt_of_le
      (length_shift_lt hspares' ((hcomma.trans hstop).trans hfiller)) hfuel)
    rw [itemsFrom_shift_open hopen (hspares'.mono List.suffix_rfl (hafter.trans hstop)),
      he.spared x _ _ _ hv (hspares'.mono hfiller hafter) (ended_of_skipFiller h (by decide)),
      Option.bind_some, afterItem_comma (skipFiller_shift_cons h
        (hspares'.mono (hstop.trans hfiller) List.suffix_rfl)),
      ih (hspares.mono hcs List.suffix_rfl) (Nat.le_add_right _ _)]
    simp

lemma items_held (h : ItemsForm read? cs vs rest) (hold : ∃ v ∈ vs, HasAt v e.old)
    (hfuel : (e.shift cs).length ≤ fuel) : itemsFrom read? done fuel (e.shift cs) =
      e.fill?.bind fun x => some (done.reverse ++ vs.map (e.revision x).value, rest) := by
  have hfiller : ∀ {cs}, skipFiller false cs <:+ cs := fun {cs} => skipFiller_suffix false cs
  induction h generalizing done fuel with
  | close => exact absurd hold (by simp)
  | @last cs stop rest v hopen hv h =>
    replace hold : HasAt v e.old := by simpa using hold
    have hend := ended_of_skipFiller h (by decide)
    obtain ⟨hcs, hlt⟩ := he.place hv hend hold
    obtain ⟨n, rfl⟩ := Nat.exists_eq_add_of_lt
      (Nat.lt_of_lt_of_le (length_lt_shift (hcs.trans hfiller) hlt) hfuel)
    rw [itemsFrom_shift_open hopen (.inl hcs),
      he.held _ _ _ hv hend hold _ _ fun a r hr => afterItem_of_not_ended hr]
    refine Option.bind_congr fun x _ => ?_
    rw [afterItem_close h]
    simp
  | @next cs stop after rest v vs hopen hv h hnext ih =>
    have hend := ended_of_skipFiller h (by decide)
    have hafter : after <:+ stop := (List.suffix_cons _ _).trans (h ▸ hfiller)
    by_cases hfirst : HasAt v e.old
    · obtain ⟨hcs, hlt⟩ := he.place hv hend hfirst
      obtain ⟨n, rfl⟩ := Nat.exists_eq_add_of_lt
        (Nat.lt_of_lt_of_le (length_lt_shift (hcs.trans hfiller) hlt) hfuel)
      rw [itemsFrom_shift_open hopen (.inl hcs),
        he.held _ _ _ hv hend hfirst _ _ fun a r hr => afterItem_of_not_ended hr]
      -- the items behind the digit are read as before
      have hbehind := Nat.lt_of_le_of_lt hafter.length_le hlt
      have hrest := (hnext.spread he.suffix he.spread).suffix.length_le
      refine Option.bind_congr fun x _ => ?_
      have hfuel : (e.shift after).length ≤ stop.length + n := by
        rw [e.shift_of_lt hbehind]
        exact Nat.le_add_right_of_le hafter.length_le
      have hitems : itemsFrom read? ((e.revision x).value v :: done) (stop.length + n) (e.shift after) =
          some (((e.revision x).value v :: done).reverse ++ vs.map (e.revision x).value, e.shift rest) :=
        items_spared he hnext (.inr hbehind) hfuel
      rw [e.shift_of_lt hbehind, e.shift_of_lt (Nat.lt_of_le_of_lt hrest hbehind)] at hitems
      rw [afterItem_comma h, hitems]
      simp
    · obtain ⟨w, hlater, hat⟩ : ∃ w ∈ vs, HasAt w e.old := by simpa [hfirst] using hold
      have hplace := (((hnext.spread he.suffix he.spread).each w hlater).within _ hat).1
      have hstop := he.suffix _ _ _ hv
      have hspares : e.Spares (skipFiller false cs) stop := .inl (hplace.trans hafter)
      obtain ⟨n, rfl⟩ := Nat.exists_eq_add_of_lt (Nat.lt_of_lt_of_le
        (length_shift_lt (.inl hplace) (((h ▸ hfiller).trans hstop).trans hfiller)) hfuel)
      rw [itemsFrom_shift_open hopen (.inl ((hplace.trans hafter).trans hstop)),
        he.spared (.boolean true) _ _ _ hv hspares hend, Option.bind_some,
        afterItem_comma (skipFiller_shift_cons h (.inl hplace)),
        ih ⟨w, hlater, hat⟩ (Nat.le_add_right _ _)]
      refine Option.bind_congr fun x _ => ?_
      rw [he.same (y := x) hv hspares hend]
      simp

end Items

/-! ### Assignments and braces -/

section Pairs

variable {e} {read? : Reader Value} {done as : List Assignment} {a : Assignment}
  {cs after rest stop : List Char} {path : List Key} {key : Key} {fuel : Nat} {x : Scalar}

lemma assignment?_of_key? (h : key? cs = some ((path, key), '=' :: after)) : assignment? read? cs =
    (read? (skipBlanks after)).map fun r => (⟨path, key, r.1⟩, r.2) := by
  rw [assignment?, h]
  simp only [Option.bind_eq_bind, Option.bind_some, Reader.literal?, if_true]
  cases read? (skipBlanks after) <;> rfl

/-- An assignment is read with the literal as its value is. -/
lemma Exchanges.assignment (he : e.Exchanges read? (fun x => (e.revision x).value) id) :
    e.Exchanges (assignment? read?) (fun x => (e.revision x).assignment) Assignment.value where
  suffix cs a rest h := by
    obtain ⟨after, hkey, hv⟩ := assignment?_form h
    exact (he.suffix _ _ _ hv).trans (suffix_of_key? hkey)
  spread cs a rest h := by
    obtain ⟨after, hkey, hv⟩ := assignment?_form h
    exact (he.spread _ _ _ hv).mono (suffix_of_key? hkey) le_rfl
  spared x cs a rest h hspares hend := by
    obtain ⟨after, hkey, hv⟩ := assignment?_form h
    have hrest := he.suffix _ _ _ hv
    have hblanks : skipBlanks after <:+ after := List.dropWhile_suffix _
    have hafter : e.Spares after rest :=
      hspares.mono ((List.suffix_cons _ _).trans (key?_within hkey).suffix) List.suffix_rfl
    rw [assignment?_of_key? (key?_shift hkey (hspares.mono List.suffix_rfl (hrest.trans hblanks))),
      skipBlanks_shift (hafter.imp_left fun hold => (hold.trans hrest).trans hblanks),
      he.spared x _ _ _ hv (hafter.mono hblanks List.suffix_rfl) hend]
    rfl
  held cs a rest h hend hold β k hk := by
    obtain ⟨after, hkey, hv⟩ := assignment?_form h
    have hplace := (he.place hv hend hold).1.trans (List.dropWhile_suffix _)
    rw [assignment?_of_key? (key?_shift (x := .boolean true) hkey (.inl hplace)),
      skipBlanks_shift (.inl hplace), Option.bind_map, he.held _ _ _ hv hend hold]
    · rfl
    · exact fun v r hr => hk _ r hr

/-- What comes after an assignment between braces. -/
def afterPair (read? : Reader Value) (done : List Assignment) (fuel : Nat) :
    Assignment × List Char → Option (List Assignment × List Char) := fun r =>
  match skipBlanks r.2 with
  | ',' :: rest => assignmentsFrom read? (r.1 :: done) fuel rest
  | '\x7d' :: rest => some ((r.1 :: done).reverse, rest)
  | _ => none

lemma assignmentsFrom_succ : assignmentsFrom read? done (fuel + 1) cs =
    (assignment? read? cs).bind (afterPair read? done fuel) := rfl

lemma afterPair_comma (h : skipBlanks stop = ',' :: rest) :
    afterPair read? done fuel (a, stop) = assignmentsFrom read? (a :: done) fuel rest := by
  rw [afterPair, h]
  rfl

lemma afterPair_close (h : skipBlanks stop = '\x7d' :: rest) :
    afterPair read? done fuel (a, stop) = some ((a :: done).reverse, rest) := by
  rw [afterPair, h]
  rfl

lemma afterPair_of_not_ended (h : ¬Ended stop) : afterPair read? done fuel (a, stop) = none := by
  rw [afterPair]
  split
  · next heq => exact absurd (ended_of_skipBlanks heq (by decide)) h
  · next heq => exact absurd (ended_of_skipBlanks heq (by decide)) h
  · rfl

variable (he : e.Exchanges read? (fun x => (e.revision x).value) id)
include he

lemma pairs_spared (h : PairsForm read? cs as rest) (hspares : e.Spares cs rest)
    (hfuel : (e.shift cs).length ≤ fuel) : assignmentsFrom read? done fuel (e.shift cs) =
      some (done.reverse ++ as.map (e.revision x).assignment, e.shift rest) := by
  have hblanks : ∀ {cs}, skipBlanks cs <:+ cs := List.dropWhile_suffix _
  induction h generalizing done fuel with
  | @last cs stop rest a ha h =>
    have hstop := he.assignment.suffix _ _ _ ha
    have hclose : '\x7d' :: rest <:+ stop := h ▸ hblanks
    have hrest : rest <:+ stop := (List.suffix_cons _ _).trans hclose
    obtain ⟨n, rfl⟩ := Nat.exists_eq_add_of_lt
      (Nat.lt_of_lt_of_le (length_shift_lt hspares (hclose.trans hstop)) hfuel)
    rw [assignmentsFrom_succ, he.assignment.spared x _ _ _ ha
        (hspares.mono List.suffix_rfl hrest) (ended_of_skipBlanks h (by decide)),
      Option.bind_some, afterPair_close (skipBlanks_shift_cons h (hspares.mono hstop List.suffix_rfl))]
    simp
  | @next cs stop after rest a as ha h hnext ih =>
    have hstop := he.assignment.suffix _ _ _ ha
    have hcomma : ',' :: after <:+ stop := h ▸ hblanks
    have hafter : after <:+ stop := (List.suffix_cons _ _).trans hcomma
    have hspares' : e.Spares cs after :=
      hspares.mono List.suffix_rfl (hnext.spread he.suffix he.spread).suffix
    obtain ⟨n, rfl⟩ := Nat.exists_eq_add_of_lt
      (Nat.lt_of_lt_of_le (length_shift_lt hspares' (hcomma.trans hstop)) hfuel)
    rw [assignmentsFrom_succ, he.assignment.spared x _ _ _ ha
        (hspares'.mono List.suffix_rfl hafter) (ended_of_skipBlanks h (by decide)),
      Option.bind_some, afterPair_comma (skipBlanks_shift_cons h (hspares'.mono hstop List.suffix_rfl)),
      ih (hspares.mono (hafter.trans hstop) List.suffix_rfl) (Nat.le_add_right _ _)]
    simp

lemma pairs_held (h : PairsForm read? cs as rest) (hold : ∃ a ∈ as, HasAt a.value e.old)
    (hfuel : (e.shift cs).length ≤ fuel) : assignmentsFrom read? done fuel (e.shift cs) =
      e.fill?.bind fun x => some (done.reverse ++ as.map (e.revision x).assignment, rest) := by
  have hblanks : ∀ {cs}, skipBlanks cs <:+ cs := List.dropWhile_suffix _
  induction h generalizing done fuel with
  | @last cs stop rest a ha h =>
    replace hold : HasAt a.value e.old := by simpa using hold
    have hend := ended_of_skipBlanks h (by decide)
    obtain ⟨hcs, hlt⟩ := he.assignment.place ha hend hold
    obtain ⟨n, rfl⟩ := Nat.exists_eq_add_of_lt
      (Nat.lt_of_lt_of_le (length_lt_shift hcs hlt) hfuel)
    rw [assignmentsFrom_succ,
      he.assignment.held _ _ _ ha hend hold _ _ fun a r hr => afterPair_of_not_ended hr]
    refine Option.bind_congr fun x _ => ?_
    rw [afterPair_close h]
    simp
  | @next cs stop after rest a as ha h hnext ih =>
    have hend := ended_of_skipBlanks h (by decide)
    have hcomma : ',' :: after <:+ stop := h ▸ hblanks
    have hafter : after <:+ stop := (List.suffix_cons _ _).trans hcomma
    have hspread := hnext.spread he.suffix he.spread
    by_cases hfirst : HasAt a.value e.old
    · obtain ⟨hcs, hlt⟩ := he.assignment.place ha hend hfirst
      obtain ⟨n, rfl⟩ := Nat.exists_eq_add_of_lt
        (Nat.lt_of_lt_of_le (length_lt_shift hcs hlt) hfuel)
      rw [assignmentsFrom_succ,
        he.assignment.held _ _ _ ha hend hfirst _ _ fun a r hr => afterPair_of_not_ended hr]
      -- the assignments behind the digit are read as before
      have hbehind := Nat.lt_of_le_of_lt hafter.length_le hlt
      have hrest := hspread.suffix.length_le
      refine Option.bind_congr fun x _ => ?_
      have hfuel : (e.shift after).length ≤ stop.length + n := by
        rw [e.shift_of_lt hbehind]
        exact Nat.le_add_right_of_le hafter.length_le
      have hpairs : assignmentsFrom read? ((e.revision x).assignment a :: done) (stop.length + n)
          (e.shift after) = some (((e.revision x).assignment a :: done).reverse ++
            as.map (e.revision x).assignment, e.shift rest) :=
        pairs_spared he hnext (.inr hbehind) hfuel
      rw [e.shift_of_lt hbehind, e.shift_of_lt (Nat.lt_of_le_of_lt hrest hbehind)] at hpairs
      rw [afterPair_comma h, hpairs]
      simp
    · obtain ⟨b, hlater, hat⟩ : ∃ b ∈ as, HasAt b.value e.old := by simpa [hfirst] using hold
      have hplace := ((hspread.each _ (List.mem_map_of_mem hlater)).within _ hat).1
      have hspares : e.Spares cs stop := .inl (hplace.trans hafter)
      obtain ⟨n, rfl⟩ := Nat.exists_eq_add_of_lt (Nat.lt_of_lt_of_le (length_shift_lt
        (.inl hplace) (hcomma.trans (he.assignment.suffix _ _ _ ha))) hfuel)
      rw [assignmentsFrom_succ, he.assignment.spared (.boolean true) _ _ _ ha hspares hend,
        Option.bind_some, afterPair_comma (skipBlanks_shift_cons h (.inl hplace)),
        ih ⟨b, hlater, hat⟩ (Nat.le_add_right _ _)]
      refine Option.bind_congr fun x _ => ?_
      rw [he.assignment.same (y := x) ha hspares hend]
      simp

omit he in
lemma braced?_close (h : skipBlanks cs = '\x7d' :: rest) : braced? read? cs = some ([], rest) := by
  rw [braced?, h]
  rfl

omit he in
lemma braced?_open (h : ∀ rest, skipBlanks cs ≠ '\x7d' :: rest) :
    braced? read? cs = assignmentsFrom read? [] cs.length cs := by
  rw [braced?]
  split
  · next heq => exact absurd heq (h _)
  · rfl

omit he in
lemma braced?_shift_open (hsees : e.old <:+ cs ∨ cs.length < e.old.length)
    (hopen : ∀ rest, skipBlanks cs ≠ '\x7d' :: rest) : braced? read? (e.shift cs) =
      assignmentsFrom read? [] (e.shift cs).length (e.shift cs) := by
  rw [braced?_open]
  rw [skipBlanks_shift hsees]
  have hblanks : skipBlanks cs <:+ cs := List.dropWhile_suffix _
  refine shift_ne (by decide) ?_ hopen
  rcases hsees with ⟨u, rfl⟩ | hlt
  · rw [skipBlanks_before e.old_bare]
    exact .inl (List.suffix_append _ _)
  · exact .inr (Nat.lt_of_le_of_lt hblanks.length_le hlt)

lemma braced?_spared (h : braced? read? cs = some (as, rest)) (hspares : e.Spares cs rest) :
    braced? read? (e.shift cs) = some (as.map (e.revision x).assignment, e.shift rest) := by
  have hrest := (braced?_spread he.suffix he.spread h).suffix
  rcases braced?_form h with ⟨hclose, rfl⟩ | ⟨hopen, hform⟩
  · exact braced?_close (skipBlanks_shift_cons hclose hspares)
  · rw [braced?_shift_open (hspares.imp_left fun hold => hold.trans hrest) hopen,
      pairs_spared he hform hspares le_rfl]
    rfl

lemma braced?_held (h : braced? read? cs = some (as, rest)) (hold : ∃ a ∈ as, HasAt a.value e.old) :
    e.old <:+ cs ∧ braced? read? (e.shift cs) =
      e.fill?.bind fun x => some (as.map (e.revision x).assignment, rest) := by
  have hspread := braced?_spread he.suffix he.spread h
  rcases braced?_form h with ⟨-, rfl⟩ | ⟨hopen, hform⟩
  · exact absurd hold (by simp)
  · obtain ⟨a, ha, hat⟩ := id hold
    have hplace := ((hspread.each _ (List.mem_map_of_mem ha)).within _ hat).1
    refine ⟨hplace, ?_⟩
    rw [braced?_shift_open (.inl hplace) hopen, pairs_held he hform hold le_rfl]
    rfl

end Pairs

end Exchange

end MemberRelay.Proofs
