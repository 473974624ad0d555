import MemberRelay.Proofs.Toml.Located

/-!
# Scalars and their places

Each scalar of a value starts at a place of its own in the text that the value was read from, and so
does each scalar of a document. Two addresses with scalars that start at one place are the same.
-/

namespace MemberRelay.Proofs
open Toml

/-- The value at an address is a scalar of which something is true. -/
def Bears (P : Scalar → Span → Prop) (v : Value) (a : Address) : Prop :=
  ∃ s span, valueAt? a v = some (.scalar s span) ∧ P s span

/-- A value has a scalar of which something is true. -/
def Has (P : Scalar → Span → Prop) (v : Value) : Prop := ∃ a, Bears P v a

/-- A scalar at an address starts with this rest of the text. -/
def StartsAt (v : Value) (a : Address) (p : List Char) : Prop := Bears (fun _ s => s.start = p) v a

/-- A value has a scalar that starts with this rest of the text. -/
def HasAt (v : Value) (p : List Char) : Prop := Has (fun _ s => s.start = p) v

/-- No two scalars of a value start at one place. -/
def Once (v : Value) : Prop := ∀ a b p, StartsAt v a p → StartsAt v b p → a = b

/-- No scalar of one value starts where one of the other does. -/
def Apart (v w : Value) : Prop := ∀ p, HasAt v p → ¬HasAt w p

/-- The scalars of a value have places of their own in a text, none behind its rest. -/
structure Spread (cs : List Char) (v : Value) (rest : List Char) : Prop where
  within : ∀ p, HasAt v p → p <:+ cs ∧ rest.length ≤ p.length
  once : Once v

/-- The values that statements assign. -/
def assignedValues (ss : List Statement) : List Value :=
  ss.filterMap fun
    | .assign a => some a.value
    | _ => none

/-! ### Changes -/

section Changes

variable {P : Scalar → Span → Prop} {a b : Address} {v v' new : Value} {t : Table Value}

lemma Bears.ne_nil (h : Bears P (.table t) a) : a ≠ [] := by
  rintro rfl
  obtain ⟨s, span, hvalue, -⟩ := h
  cases hvalue

/-- Nothing but scalars is on the way to another value. -/
lemma Passed.not_scalar {v? : Option Value} {s : Scalar} {span : Span} :
    ¬Passed v? (some (.scalar s span)) := by
  intro h
  cases h

/-- What a change puts somewhere is the only thing that is new. -/
lemma Bears.of_put (h : Bears P v' b) (hput : Put a new v v') :
    (∃ c, b = a ++ c ∧ Bears P new c) ∨ Bears P v b := by
  obtain ⟨s, span, hvalue, hp⟩ := h
  by_cases hab : a <+: b
  · obtain ⟨c, rfl⟩ := hab
    rw [hput.below] at hvalue
    exact .inl ⟨c, rfl, s, span, hvalue, hp⟩
  · by_cases hba : b <+: a
    · have hne : b ≠ a := by
        rintro rfl
        exact hab List.prefix_rfl
      have hpassed := hput.way b hba hne
      rw [hvalue] at hpassed
      exact absurd hpassed Passed.not_scalar
    · rw [hput.beside b hba hab] at hvalue
      exact .inr ⟨s, span, hvalue, hp⟩

lemma Once.put (h : Once v) (hnew : Once new) (hapart : Apart v new) (hput : Put a new v v') :
    Once v' := by
  intro b c p hb hc
  rcases hb.of_put hput with ⟨b', rfl, hb'⟩ | hb'
  · rcases hc.of_put hput with ⟨c', rfl, hc'⟩ | hc'
    · rw [hnew b' c' p hb' hc']
    · exact absurd ⟨b', hb'⟩ (hapart p ⟨c, hc'⟩)
  · rcases hc.of_put hput with ⟨c', rfl, hc'⟩ | hc'
    · exact absurd ⟨c', hc'⟩ (hapart p ⟨b, hb'⟩)
    · exact h b c p hb' hc'

/-- A header moves no scalar. -/
lemma Bears.of_grows (h : Bears P v' b) (hput : Put a new v v')
    (hgrows : Grows (valueAt? a v) new) : Bears P v b := by
  rcases h.of_put hput with ⟨c, rfl, s, span, hvalue, hp⟩ | h
  · refine ⟨s, span, ?_, hp⟩
    rw [valueAt?_append]
    exact hgrows.only c _ hvalue trivial
  · exact h

end Changes

/-! ### Tables -/

section Tables

variable {o : Outline} {es es' : List Entry} {hs hs' : List Address} {d d' : Draft}
  {ss : List Statement} {t : Table Value}

/-- A table gathers scalars that statements assign, each once. -/
structure Gathers (vs : List Value) (t t' : Table Value) : Prop where
  once : Once (.table t')
  only : ∀ P, Has P (.table t') → Has P (.table t) ∨ ∃ v ∈ vs, Has P v

lemma Drafted.gathers (hd : Drafted o es hs d) (htold : Told o es' hs' ss)
    (hfold : ss.foldlM Draft.add d = some d') (hroot : Once (.table d.root))
    (honce : ∀ v ∈ assignedValues ss, Once v) (hapart : (assignedValues ss).Pairwise Apart)
    (hnew : ∀ v ∈ assignedValues ss, Apart (.table d.root) v) :
    Gathers (assignedValues ss) d.root d'.root := by
  induction htold generalizing es hs d with
  | nil =>
    cases hfold
    exact ⟨hroot, fun p hp => .inl hp⟩
  | @assign o text inner es' hs' a ss hsaid _ ih =>
    obtain ⟨d₁, hadd, hfold⟩ := Option.bind_eq_some_iff.1 hfold
    have hnext := hd.assign hsaid hadd
    obtain ⟨root, hassign, rfl⟩ := Option.map_eq_some_iff.1 hadd
    obtain ⟨b, henters, -⟩ := within_enters hd.counted hd.openAlong_current hassign
    have hvalues : assignedValues (.assign a :: ss) = a.value :: assignedValues ss := rfl
    rw [hvalues] at honce hapart hnew ⊢
    obtain ⟨hpair, hpairs⟩ := List.pairwise_cons.1 hapart
    have hhas : ∀ P, Has P (.table root) → Has P (.table d.root) ∨ Has P a.value := by
      rintro P ⟨c, hc⟩
      rcases hc.of_put henters.put with ⟨c, -, hc⟩ | hc
      · exact .inr ⟨c, hc⟩
      · exact .inl ⟨c, hc⟩
    have hstep : Once (.table root) :=
      hroot.put (honce _ List.mem_cons_self) (hnew _ List.mem_cons_self) henters.put
    have hgathers := ih hnext hfold hstep (fun v hv => honce v (List.mem_cons_of_mem _ hv)) hpairs
      fun v hv p hp => (hhas _ hp).elim (hnew v (List.mem_cons_of_mem _ hv) p) (hpair v hv p)
    refine ⟨hgathers.once, fun P hp => ?_⟩
    rcases hgathers.only P hp with hp | ⟨v, hv, hp⟩
    · exact (hhas P hp).imp id fun hp => ⟨_, List.mem_cons_self, hp⟩
    · exact .inr ⟨v, List.mem_cons_of_mem _ hv, hp⟩
  | @openTable o es' hs' path key span ss _ ih =>
    obtain ⟨d₁, hadd, hfold⟩ := Option.bind_eq_some_iff.1 hfold
    have hnext := hd.openTable hadd
    obtain ⟨root, hopen, rfl⟩ := Option.map_eq_some_iff.1 hadd
    obtain ⟨b, new, henters, hopens⟩ := openTable_enters hd.counted hopen
    have hback : ∀ P c, Bears P (.table root) c → Bears P (.table d.root) c :=
      fun P c hc => hc.of_grows henters.put hopens.grows
    have hgathers := ih hnext hfold (fun a b p ha hb => hroot a b p (hback _ a ha) (hback _ b hb))
      honce hapart fun v hv p ⟨c, hc⟩ => hnew v hv p ⟨c, hback _ c hc⟩
    exact ⟨hgathers.once, fun P hp => (hgathers.only P hp).imp_left fun ⟨c, hc⟩ => ⟨c, hback P c hc⟩⟩
  | @openElement o es' hs' path key span ss _ ih =>
    obtain ⟨d₁, hadd, hfold⟩ := Option.bind_eq_some_iff.1 hfold
    have hnext := hd.openElement hadd
    obtain ⟨root, hopen, rfl⟩ := Option.map_eq_some_iff.1 hadd
    obtain ⟨b, new, henters, hadds⟩ := openElement_enters hd.counted hopen
    have hback : ∀ P c, Bears P (.table root) c → Bears P (.table d.root) c :=
      fun P c hc => hc.of_grows henters.put hadds.grows
    have hgathers := ih hnext hfold (fun a b p ha hb => hroot a b p (hback _ a ha) (hback _ b hb))
      honce hapart fun v hv p ⟨c, hc⟩ => hnew v hv p ⟨c, hback _ c hc⟩
    exact ⟨hgathers.once, fun P hp => (hgathers.only P hp).imp_left fun ⟨c, hc⟩ => ⟨c, hback P c hc⟩⟩

lemma not_has_empty {origin : Origin} {P : Scalar → Span → Prop} :
    ¬Has P (.table (Table.empty origin)) := by
  rintro ⟨a, ha⟩
  obtain ⟨s, span, hvalue, -⟩ := id ha
  rw [valueAt?_empty rfl ha.ne_nil] at hvalue
  cases hvalue

/-- What statements build from nothing gathers their scalars. -/
lemma Gathers.of_empty {origin : Origin}
    (hd : Drafted .start [] [] ⟨Table.empty origin, []⟩) (htold : Told .start es hs ss)
    (hfold : ss.foldlM Draft.add ⟨Table.empty origin, []⟩ = some d)
    (honce : ∀ v ∈ assignedValues ss, Once v) (hapart : (assignedValues ss).Pairwise Apart) :
    Once (.table d.root) ∧ ∀ P, Has P (.table d.root) → ∃ v ∈ assignedValues ss, Has P v := by
  have hgathers := hd.gathers htold hfold
    (fun a b p ha => absurd ⟨a, ha⟩ not_has_empty) honce hapart
    fun v _ p hp => absurd hp not_has_empty
  exact ⟨hgathers.once, fun P hp => (hgathers.only P hp).resolve_left not_has_empty⟩

end Tables

/-! ### Values -/

section Values

variable {read? : Reader Value} {cs cs' inner stop rest rest' : List Char} {v : Value}
  {vs : List Value} {as : List Assignment} {t : Table Value} {span : Span} {s : Scalar}

lemma Spread.mono (h : Spread cs v rest) (hcs : cs <:+ cs') (hrest : rest'.length ≤ rest.length) :
    Spread cs' v rest' where
  within p hp := ⟨(h.within p hp).1.trans hcs, hrest.trans (h.within p hp).2⟩
  once := h.once

lemma bears_scalar {P : Scalar → Span → Prop} {a : Address} (h : Bears P (.scalar s span) a) :
    a = [] ∧ P s span := by
  obtain ⟨s', span', hvalue, hp⟩ := h
  by_cases ha : a = []
  · subst ha
    cases hvalue
    exact ⟨rfl, hp⟩
  · rw [valueAt?_scalar ha] at hvalue
    cases hvalue

lemma spread_scalar (h : rest <:+ cs) : Spread cs (.scalar s ⟨cs, rest⟩) rest where
  within p := by
    rintro ⟨a, ha⟩
    rw [← (bears_scalar ha).2]
    exact ⟨List.suffix_rfl, h.length_le⟩
  once a b p ha hb := by rw [(bears_scalar ha).1, (bears_scalar hb).1]

/-- Values whose scalars have places of their own, those of one value before those of the next. -/
structure AllSpread (cs : List Char) (vs : List Value) (rest : List Char) : Prop where
  suffix : rest <:+ cs
  each : ∀ v ∈ vs, Spread cs v rest
  apart : vs.Pairwise Apart

/-- One more value in front of others. -/
lemma AllSpread.cons {text after : List Char} (hv : Spread text v stop) (htext : text <:+ cs)
    (hafter : after <:+ stop) (hlt : after.length < stop.length) (hstop : stop <:+ text)
    (h : AllSpread after vs rest) : AllSpread cs (v :: vs) rest where
  suffix := ((h.suffix.trans hafter).trans hstop).trans htext
  each := by
    refine List.forall_mem_cons.2 ⟨hv.mono htext ?_, fun w hw => (h.each w hw).mono ?_ le_rfl⟩
    · exact (h.suffix.trans hafter).length_le
    · exact (hafter.trans hstop).trans htext
  apart := by
    refine List.pairwise_cons.2 ⟨fun w hw p hp hp' => ?_, h.apart⟩
    have hlow := (hv.within p hp).2
    have hhigh := ((h.each w hw).within p hp').1.length_le
    omega

lemma allSpread_nil (h : rest <:+ cs) : AllSpread cs [] rest :=
  ⟨h, fun _ hv => absurd hv List.not_mem_nil, .nil⟩

variable (hend : LeavesEnd read?)
  (hread : ∀ cs v rest, read? cs = some (v, rest) → Spread cs v rest)
include hend hread

lemma ItemsForm.spread (h : ItemsForm read? cs vs rest) : AllSpread cs vs rest := by
  induction h with
  | close h => exact allSpread_nil (suffix_of_skipFiller h)
  | @last cs stop rest v _ hv h =>
    have hrest := suffix_of_skipFiller h
    refine AllSpread.cons (hread _ _ _ hv) (skipFiller_suffix false cs) hrest ?_ (hend _ _ _ hv)
      (allSpread_nil List.suffix_rfl)
    have hfiller := (skipFiller_suffix false stop).length_le
    rw [h, List.length_cons] at hfiller
    omega
  | @next cs stop after rest v vs _ hv h _ ih =>
    refine AllSpread.cons (hread _ _ _ hv) (skipFiller_suffix false cs) (suffix_of_skipFiller h) ?_
      (hend _ _ _ hv) ih
    have hfiller := (skipFiller_suffix false stop).length_le
    rw [h, List.length_cons] at hfiller
    omega

lemma PairsForm.spread (h : PairsForm read? cs as rest) :
    AllSpread cs (as.map Assignment.value) rest := by
  have htext : ∀ {cs after : List Char} {a : Assignment},
      key? cs = some ((a.path, a.key), '=' :: after) → skipBlanks after <:+ cs :=
    fun hkey => suffix_of_key? hkey
  induction h with
  | @last cs stop rest a ha h =>
    obtain ⟨after, hkey, hv⟩ := assignment?_form ha
    have hrest := suffix_of_skipBlanks h
    refine AllSpread.cons (hread _ _ _ hv) (htext hkey) hrest ?_ (hend _ _ _ hv)
      (allSpread_nil List.suffix_rfl)
    have hblanks := (List.dropWhile_suffix isBlank (l := stop)).length_le
    rw [← skipBlanks, h, List.length_cons] at hblanks
    omega
  | @next cs stop next rest a as ha h _ ih =>
    obtain ⟨after, hkey, hv⟩ := assignment?_form ha
    refine AllSpread.cons (hread _ _ _ hv) (htext hkey) (suffix_of_skipBlanks h) ?_
      (hend _ _ _ hv) ih
    have hblanks := (List.dropWhile_suffix isBlank (l := stop)).length_le
    rw [← skipBlanks, h, List.length_cons] at hblanks
    omega

omit hend hread

lemma bears_array {P : Scalar → Span → Prop} {a : Address} (h : Bears P (.array vs span) a) :
    ∃ i b v, a = .index i :: b ∧ vs[i]? = some v ∧ Bears P v b := by
  obtain ⟨s, span', hvalue, hp⟩ := h
  cases a with
  | nil => cases hvalue
  | cons sel a =>
    cases sel with
    | name n => cases hvalue
    | index i =>
      rw [valueAt?] at hvalue
      obtain ⟨v, hv, hvalue⟩ := Option.bind_eq_some_iff.1 hvalue
      exact ⟨i, a, v, rfl, hv, s, span', hvalue, hp⟩

lemma has_array {P : Scalar → Span → Prop} (h : Has P (.array vs span)) : ∃ v ∈ vs, Has P v := by
  obtain ⟨a, ha⟩ := h
  obtain ⟨i, b, v, -, hv, hb⟩ := bears_array ha
  exact ⟨v, List.mem_of_getElem? hv, b, hb⟩

lemma AllSpread.array (h : AllSpread cs vs rest) : Spread cs (.array vs span) rest where
  within p hp := by
    obtain ⟨v, hv, hp⟩ := has_array hp
    exact (h.each v hv).within p hp
  once a b p ha hb := by
    obtain ⟨i, a, v, rfl, hv, ha⟩ := bears_array ha
    obtain ⟨j, b, w, rfl, hw, hb⟩ := bears_array hb
    obtain ⟨hi, rfl⟩ := List.getElem?_eq_some_iff.1 hv
    obtain ⟨hj, rfl⟩ := List.getElem?_eq_some_iff.1 hw
    -- items at different places have no scalar in common
    have hapart := List.pairwise_iff_getElem.1 h.apart
    rcases Nat.lt_trichotomy i j with hlt | rfl | hlt
    · exact absurd ⟨b, hb⟩ (hapart i j hi hj hlt p ⟨a, ha⟩)
    · rw [(h.each _ (List.getElem_mem hi)).once a b p ha hb]
    · exact absurd ⟨a, ha⟩ (hapart j i hj hi hlt p ⟨b, hb⟩)

lemma assignedValues_assign : assignedValues (as.map .assign) = as.map Assignment.value := by
  rw [assignedValues, List.filterMap_map]
  exact congrFun List.filterMap_eq_map as

/-- Where braces stand does not count. -/
lemma bears_setSpan {P : Scalar → Span → Prop} {sp? : Option Span} {a : Address}
    (h : Bears P (.table { t with span := sp? }) a) : Bears P (.table t) a := by
  obtain ⟨s, span, hvalue, hp⟩ := id h
  have hsame : valueAt? a (.table { t with span := sp? }) = valueAt? a (.table t) :=
    valueAt?_congr rfl h.ne_nil
  exact ⟨s, span, hsame.symm.trans hvalue, hp⟩

/-- A table in braces gathers the scalars of its assignments. -/
lemma AllSpread.gathered {depth : Nat} (hdepth : depth < depthLimit)
    (h : AllSpread cs (as.map Assignment.value) rest)
    (has : braced? (value? depth) inner = some (as, stop)) (ht : ofAssignments? as = some t)
    (sp? : Option Span) : Once (.table { t with span := sp? }) ∧
      ∀ P, Has P (.table { t with span := sp? }) → ∃ a ∈ as, Has P a.value := by
  obtain ⟨es, hpaired⟩ := braced?_paired (value?_written hdepth) has
  have hstart : Drafted .start [] [] ⟨Table.empty .braces, []⟩ :=
    (kept_start .braces (List.suffix_refl inner)).toDrafted
  have hgathers := Gathers.of_empty hstart hpaired.told (foldlM_add_assign rfl ht)
  rw [assignedValues_assign] at hgathers
  obtain ⟨honce, honly⟩ := hgathers (fun v hv => (h.each v hv).once) h.apart
  refine ⟨fun a b p ha hb => honce a b p (bears_setSpan ha) (bears_setSpan hb), ?_⟩
  rintro P ⟨a, ha⟩
  obtain ⟨v, hv, hp⟩ := honly P ⟨a, bears_setSpan ha⟩
  obtain ⟨b, hb, rfl⟩ := List.mem_map.1 hv
  exact ⟨b, hb, hp⟩

lemma AllSpread.table {depth : Nat} (hdepth : depth < depthLimit)
    (h : AllSpread cs (as.map Assignment.value) rest)
    (has : braced? (value? depth) inner = some (as, stop)) (ht : ofAssignments? as = some t)
    (sp? : Option Span) : Spread cs (.table { t with span := sp? }) rest := by
  obtain ⟨honce, honly⟩ := h.gathered hdepth has ht sp?
  refine ⟨fun p hp => ?_, honce⟩
  obtain ⟨a, ha, hp⟩ := honly _ hp
  exact (h.each _ (List.mem_map_of_mem ha)).within p hp

lemma braced?_spread (hend : LeavesEnd read?)
    (hread : ∀ cs v rest, read? cs = some (v, rest) → Spread cs v rest)
    (h : braced? read? cs = some (as, rest)) : AllSpread cs (as.map Assignment.value) rest := by
  rcases braced?_form h with ⟨hclose, rfl⟩ | ⟨-, hform⟩
  · exact allSpread_nil (suffix_of_skipBlanks hclose)
  · exact hform.spread hend hread

/-- The scalars of a value have places of their own in its text. -/
theorem value?_spread {depth : Nat} (hdepth : depth < depthLimit)
    (h : value? depth cs = some (v, rest)) : Spread cs v rest := by
  induction depth generalizing cs v rest with
  | zero =>
    obtain ⟨⟨s, stop⟩, hs, heq⟩ := Option.map_eq_some_iff.1 h
    cases heq
    exact spread_scalar (scalar?_suffix _ _ _ hs)
  | succ depth ih =>
    have hinner : ∀ cs v rest, value? depth cs = some (v, rest) → Spread cs v rest :=
      fun cs v rest => ih (Nat.lt_of_succ_lt hdepth)
    have hsuffix : LeavesEnd (value? depth) := fun cs v rest h => (value?_span depth _ _ _ h).1
    cases value?_form h with
    | scalar hs => exact spread_scalar (scalar?_suffix _ _ _ hs)
    | @array inner rest items hitems =>
      obtain ⟨vs, rfl, hform⟩ := itemsFrom_form hitems
      have hspread := hform.spread hsuffix hinner
      exact hspread.array.mono (List.suffix_cons _ _) le_rfl
    | @braces inner rest as t has ht =>
      have hspread := braced?_spread hsuffix hinner has
      exact (hspread.table (Nat.lt_of_succ_lt hdepth) has ht _).mono (List.suffix_cons _ _) le_rfl

/-- The text at the place of a scalar is not read as the scalar. -/
def Misread (s : Scalar) (span : Span) : Prop := scalar? span.start ≠ some (s, span.stop)

lemma value?_not_misread {depth : Nat} (hdepth : depth < depthLimit)
    (h : value? depth cs = some (v, rest)) : ¬Has Misread v := by
  have hscalar : ∀ {cs rest s}, scalar? cs = some (s, rest) → ¬Has Misread (.scalar s ⟨cs, rest⟩) := by
    rintro cs rest s h ⟨a, ha⟩
    exact (bears_scalar ha).2 h
  induction depth generalizing cs v rest with
  | zero =>
    obtain ⟨⟨s, stop⟩, hs, heq⟩ := Option.map_eq_some_iff.1 h
    cases heq
    exact hscalar hs
  | succ depth ih =>
    have hlt := Nat.lt_of_succ_lt hdepth
    cases value?_form h with
    | scalar hs => exact hscalar hs
    | array hitems =>
      obtain ⟨vs, rfl, hform⟩ := itemsFrom_form hitems
      intro hmisread
      obtain ⟨v, hv, hmisread⟩ := has_array hmisread
      obtain ⟨text, stop, hread⟩ := hform.reads hv
      exact ih hlt hread hmisread
    | @braces inner rest as t has ht =>
      have hspread := braced?_spread (fun cs v rest h => (value?_span depth _ _ _ h).1)
        (fun cs v rest => value?_spread hlt) has
      intro hmisread
      obtain ⟨a, ha, hmisread⟩ := (hspread.gathered hlt has ht _).2 _ hmisread
      rcases braced?_form has with ⟨-, rfl⟩ | ⟨-, hform⟩
      · exact absurd ha List.not_mem_nil
      · obtain ⟨text, stop, hread⟩ := hform.reads ha
        exact ih hlt hread hmisread

end Values

/-! ### Documents -/

section Documents

variable {cs rest : List Char} {ss : List Statement} {t : Table Value}

lemma statement?_spread {a : Assignment} (h : statement? cs = some (.assign a, rest)) :
    ∃ text, text <:+ cs ∧ text.length < cs.length ∧ Spread text a.value rest := by
  cases statement?_form h with
  | @assign cs stop rest a ha hend =>
    obtain ⟨after, hkey, hv⟩ := assignment?_form ha
    refine ⟨_, suffix_of_key? hkey, ?_, ?_⟩
    · have hblanks := (List.dropWhile_suffix isBlank (l := after)).length_le
      have hlength := (key?_within hkey).suffix.length_le
      rw [List.length_cons] at hlength
      exact Nat.lt_of_le_of_lt hblanks hlength
    · exact (value?_spread (by decide) hv).mono List.suffix_rfl (endOfLine?_suffix hend).length_le

/-- The values that the lines of a text assign have places of their own in it. -/
structure LinesSpread (cs : List Char) (vs : List Value) : Prop where
  within : ∀ v ∈ vs, ∀ p, HasAt v p → p <:+ cs ∧ p.length < cs.length
  once : ∀ v ∈ vs, Once v
  apart : vs.Pairwise Apart

lemma LinesSpread.mono {cs' : List Char} {vs : List Value} (h : LinesSpread cs vs)
    (hcs : cs <:+ cs') : LinesSpread cs' vs where
  within v hv p hp :=
    ⟨(h.within v hv p hp).1.trans hcs, Nat.lt_of_lt_of_le (h.within v hv p hp).2 hcs.length_le⟩
  once := h.once
  apart := h.apart

lemma LinesForm.spread (h : LinesForm cs ss) : LinesSpread cs (assignedValues ss) := by
  have hblanks : ∀ cs, skipBlanks cs <:+ cs := fun cs => List.dropWhile_suffix _
  induction h with
  | done => exact ⟨fun _ hv => absurd hv List.not_mem_nil, fun _ hv => absurd hv List.not_mem_nil, .nil⟩
  | @note cs _ rest ss hstart hend _ ih =>
    exact ih.mono ((endOfLine?_suffix hend).trans (hstart ▸ hblanks cs))
  | @empty cs rest ss hline _ ih => exact ih.mono ((newline?_suffix hline).trans (hblanks cs))
  | @statement cs line rest c s ss hstart _ _ hs _ ih =>
    refine LinesSpread.mono ?_ (hstart ▸ hblanks cs)
    have hrest := (statement?_placed hs).suffix
    cases s with
    | openTable => exact ih.mono hrest
    | openElement => exact ih.mono hrest
    | assign a =>
      obtain ⟨text, htext, hlt, hspread⟩ := statement?_spread hs
      refine ⟨List.forall_mem_cons.2 ⟨fun p hp => ?_, (ih.mono hrest).within⟩,
        List.forall_mem_cons.2 ⟨hspread.once, ih.once⟩,
        List.pairwise_cons.2 ⟨fun w hw p hp hp' => ?_, ih.apart⟩⟩
      · have hp := (hspread.within p hp).1
        exact ⟨hp.trans htext, Nat.lt_of_le_of_lt hp.length_le hlt⟩
      · have hlow := (hspread.within p hp).2
        have hhigh := (ih.within w hw p hp').2
        omega

lemma withoutMark_of_ne (h : ∀ rest, cs ≠ '\uFEFF' :: rest) : withoutMark cs = cs := by
  unfold withoutMark
  split
  · exact absurd rfl (h _)
  · rfl

lemma statements?_eq : statements? cs =
    statementsFrom [] ((withoutMark cs).length + 1) (withoutMark cs) := by
  unfold statements?
  split
  · rfl
  · next hmark => rw [withoutMark_of_ne hmark]

lemma statements?_form (h : statements? cs = some ss) : LinesForm (withoutMark cs) ss := by
  rw [statements?_eq] at h
  obtain ⟨new, rfl, hform⟩ := statementsFrom_form h
  exact hform

/-- Each scalar of a document has a place of its own and stands in a value that a statement
assigns. -/
theorem document?_spread (h : document? cs = some t) : Once (.table t) ∧ ∃ ss,
    statements? cs = some ss ∧ ofStatements? ss = some t ∧
      ∀ P, Has P (.table t) → ∃ v ∈ assignedValues ss, Has P v := by
  obtain ⟨ss, hss, hof⟩ := Option.bind_eq_some_iff.1 h
  obtain ⟨d, hfold, rfl⟩ := Option.map_eq_some_iff.1 hof
  obtain ⟨es, hs, -, htold⟩ := statements?_told hss
  have hspread := (statements?_form hss).spread
  obtain ⟨honce, honly⟩ := Gathers.of_empty drafted_start htold hfold hspread.once hspread.apart
  exact ⟨honce, ss, hss, hof, honly⟩

/-- Each scalar of a document is what the text at its place is read as. -/
theorem document?_reads {a : Address} {s : Scalar} {span : Span} (h : document? cs = some t)
    (hv : valueAt? a (.table t) = some (.scalar s span)) :
    scalar? span.start = some (s, span.stop) := by
  by_contra hmisread
  obtain ⟨-, ss, hss, -, honly⟩ := document?_spread h
  obtain ⟨v, hv, hmisread⟩ := honly Misread ⟨a, s, span, hv, hmisread⟩
  obtain ⟨assigned, hassigned, hvalue⟩ := List.mem_filterMap.1 hv
  cases assigned with
  | assign a =>
    cases hvalue
    obtain ⟨text, stop, hread⟩ := (statements?_form hss).reads hassigned
    exact value?_not_misread (by decide) hread hmisread
  | openTable => cases hvalue
  | openElement => cases hvalue

end Documents

end MemberRelay.Proofs
