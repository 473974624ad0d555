import MemberRelay.Proofs.Toml.Written

/-!
# What a value contains

A value contains the entries that its text writes, each once and each in its place, and nothing else
that is closed. A change that enters one value more, past what is open, adds the entries of that
value.
-/

namespace MemberRelay.Proofs
open Toml

/-- The second entry is written in the value of the first one. -/
def Inside (e e' : Entry) : Prop :=
  ∃ inner rest, Writes .value e.2 inner rest ∧ e' ∈ below e.1 inner

def Everywhere : Address → Prop := fun _ => True

/-- The closed values under the names of a region are those that the texts of the entries give. No
address has two entries, and none lies below another but inside its text. -/
structure Contains (region : Address → Prop) (es : List Entry) (v : Value) : Prop where
  within : ∀ e ∈ es, region e.1
  named : ∀ e ∈ es, ∃ a n, e.1 = a ++ [.name n]
  found : ∀ e ∈ es, ∃ w, valueAt? e.1 v = some w ∧ IsClosed w ∧ Reads e.2 w
  once : (es.map Prod.fst).Nodup
  apart : ∀ e ∈ es, ∀ e' ∈ es, e.1 <+: e'.1 → e = e' ∨ Inside e e'
  only : ∀ a n w, region (a ++ [.name n]) → valueAt? (a ++ [.name n]) v = some w → IsClosed w →
    ∃ e ∈ es, e.1 = a ++ [.name n]

/-- A text gives a closed value with the entries it writes. -/
structure Says (text : List Char) (inner : List Entry) (v : Value) : Prop where
  writes : ∃ rest, Writes .value text inner rest
  reads : Reads text v
  contains : Contains Everywhere inner v
  closed : IsClosed v
  plain : Counted [] [] v

/-! ### Parts and changes of a value -/

section Contains

variable {r r' : Address → Prop} {es es' inner : List Entry} {v v' w new : Value} {a p : Address}
  {text : List Char} {n : String}

lemma mem_below {e : Entry} (he : e ∈ below p inner) :
    ∃ i ∈ inner, e = (p ++ i.1, i.2) := by
  obtain ⟨i, hi, rfl⟩ := List.mem_map.1 he
  exact ⟨i, hi, rfl⟩

lemma contains_nil (h : ∀ a n w, r (a ++ [.name n]) → valueAt? (a ++ [.name n]) v = some w →
    ¬IsClosed w) : Contains r [] v where
  within _ he := absurd he List.not_mem_nil
  named _ he := absurd he List.not_mem_nil
  found _ he := absurd he List.not_mem_nil
  once := List.nodup_nil
  apart _ he := absurd he List.not_mem_nil
  only a n w hr hw hclosed := absurd hclosed (h a n w hr hw)

lemma contains_leaf (h : ∀ a, a ≠ [] → valueAt? a v = none) : Contains Everywhere [] v := by
  refine contains_nil fun a n w _ hw => ?_
  rw [h _ (by simp)] at hw
  cases hw

lemma counted_leaf (h : ∀ a, a ≠ [] → valueAt? a v = none) (hv : elements (some v) = 0) :
    Counted [] [] v := by
  intro a
  by_cases ha : a = []
  · subst ha
    exact hv.symm
  · rw [h a ha]
    rfl

lemma Contains.mono (h : Contains r es v) (hwithin : ∀ e ∈ es, r' e.1)
    (hsub : ∀ a n w, r' (a ++ [.name n]) → valueAt? (a ++ [.name n]) v = some w →
      r (a ++ [.name n])) : Contains r' es v where
  within := hwithin
  named := h.named
  found := h.found
  once := h.once
  apart := h.apart
  only a n w hr hw hclosed := h.only a n w (hsub a n w hr hw) hw hclosed

lemma Contains.union (h : Contains r es v) (h' : Contains r' es' v)
    (hapart : ∀ e ∈ es, ∀ e' ∈ es', ¬e'.1 <+: e.1 ∧ (e.1 <+: e'.1 → Inside e e')) :
    Contains (fun a => r a ∨ r' a) (es ++ es') v where
  within := List.forall_mem_append.2
    ⟨fun e he => .inl (h.within e he), fun e he => .inr (h'.within e he)⟩
  named := List.forall_mem_append.2 ⟨h.named, h'.named⟩
  found := List.forall_mem_append.2 ⟨h.found, h'.found⟩
  once := by
    rw [List.map_append, List.nodup_append]
    refine ⟨h.once, h'.once, ?_⟩
    rintro a ha b hb rfl
    obtain ⟨e, he, rfl⟩ := List.mem_map.1 ha
    obtain ⟨e', he', heq⟩ := List.mem_map.1 hb
    have hback := (hapart e he e' he').1
    rw [heq] at hback
    exact hback List.prefix_rfl
  apart := by
    intro e he e' he' hle
    rcases List.mem_append.1 he with he | he
    · rcases List.mem_append.1 he' with he' | he'
      · exact h.apart e he e' he' hle
      · exact .inr ((hapart e he e' he').2 hle)
    · rcases List.mem_append.1 he' with he' | he'
      · exact absurd hle (hapart e' he' e he).1
      · exact h'.apart e he e' he' hle
  only := by
    rintro a n w (hr | hr) hw hclosed
    · obtain ⟨e, he, heq⟩ := h.only a n w hr hw hclosed
      exact ⟨e, List.mem_append_left _ he, heq⟩
    · obtain ⟨e, he, heq⟩ := h'.only a n w hr hw hclosed
      exact ⟨e, List.mem_append_right _ he, heq⟩

/-- What a part contains is contained below its address. -/
lemma Contains.below (h : Contains Everywhere inner w) (hw : valueAt? p v = some w) :
    Contains (fun a => p <+: a ∧ a ≠ p) (below p inner) v where
  within e he := by
    obtain ⟨i, hi, rfl⟩ := mem_below he
    obtain ⟨a, n, ha⟩ := h.named i hi
    refine ⟨List.prefix_append p _, ?_⟩
    rw [ha]
    simp
  named e he := by
    obtain ⟨i, hi, rfl⟩ := mem_below he
    obtain ⟨a, n, ha⟩ := h.named i hi
    exact ⟨p ++ a, n, by rw [ha, List.append_assoc]⟩
  found e he := by
    obtain ⟨i, hi, rfl⟩ := mem_below he
    obtain ⟨x, hx⟩ := h.found i hi
    exact ⟨x, by rwa [valueAt?_append_of_some hw]⟩
  once := by
    have hmap : (Proofs.below p inner).map Prod.fst = (inner.map Prod.fst).map (p ++ ·) := by
      rw [Proofs.below, List.map_map, List.map_map]
      rfl
    rw [hmap]
    exact h.once.map fun a b hab => List.append_cancel_left hab
  apart e he e' he' hle := by
    obtain ⟨i, hi, rfl⟩ := mem_below he
    obtain ⟨j, hj, rfl⟩ := mem_below he'
    rw [List.prefix_append_right_inj] at hle
    rcases h.apart i hi j hj hle with rfl | ⟨inner', rest, hwrites, hmem⟩
    · exact .inl rfl
    · obtain ⟨k, hk, rfl⟩ := mem_below hmem
      refine .inr ⟨inner', rest, hwrites, List.mem_map.2 ⟨k, hk, ?_⟩⟩
      rw [List.append_assoc]
  only a n x hr hx hclosed := by
    obtain ⟨c, rfl⟩ := (List.prefix_concat_iff.1 hr.1).resolve_left hr.2.symm
    rw [List.append_assoc, valueAt?_append_of_some hw] at hx
    obtain ⟨i, hi, heq⟩ := h.only c n x trivial hx hclosed
    exact ⟨_, List.mem_map_of_mem hi, by rw [heq, List.append_assoc]⟩

/-- An entry is contained at its address, with those that its text writes. -/
lemma Says.contained (h : Says text inner w) (hw : valueAt? (a ++ [.name n]) v = some w) :
    Contains (a ++ [.name n] <+: ·) (assigned (a ++ [.name n]) text inner) v := by
  have hself : Contains (· = a ++ [.name n]) [(a ++ [.name n], text)] v := {
    within := List.forall_mem_singleton.2 rfl
    named := List.forall_mem_singleton.2 ⟨a, n, rfl⟩
    found := List.forall_mem_singleton.2 ⟨w, hw, h.closed, h.reads⟩
    once := List.nodup_singleton _
    apart := by
      intro e he e' he' _
      rw [List.mem_singleton.1 he, List.mem_singleton.1 he']
      exact .inl rfl
    only := fun b m x hb _ _ => ⟨_, List.mem_singleton_self _, hb.symm⟩ }
  have hbelow := h.contains.below hw
  obtain ⟨rest, hwrites⟩ := h.writes
  have hunion := hself.union hbelow (by
    intro e he e' he'
    rw [List.mem_singleton.1 he]
    obtain ⟨hle, hne⟩ := hbelow.within e' he'
    refine ⟨fun hback => hne ?_, fun _ => ⟨inner, rest, hwrites, he'⟩⟩
    exact hback.eq_of_length (Nat.le_antisymm hback.length_le hle.length_le))
  refine hunion.mono ?_ ?_
  · intro e he
    rcases hunion.within e he with heq | hlt
    · exact ⟨[], by rw [heq, List.append_nil]⟩
    · exact hlt.1
  · intro b m x hle _
    by_cases hb : b ++ [.name m] = a ++ [.name n]
    · exact .inl hb
    · exact .inr ⟨hle, hb⟩

lemma Passed.closed {v? : Option Value} (h : Passed v? (some w)) (hw : IsClosed w) :
    ∃ w', v? = some w' ∧ IsClosed w' := by
  cases h with
  | made horigin => exact absurd hw horigin
  | table horigin => exact ⟨_, rfl, horigin.symm.trans hw⟩
  | tables => exact hw.elim

lemma Contains.not_above (h : Contains r es v) (hopen : OpenAlong p v) :
    ∀ e ∈ es, ¬e.1 <+: p := by
  intro e he hle
  obtain ⟨w, hw, hclosed, -⟩ := h.found e he
  obtain ⟨a, n, ha⟩ := h.named e he
  rw [ha] at hle hw
  exact hopen a n w hle hw hclosed

lemma Contains.openAlong (h : Contains Everywhere es v) (hp : ∀ e ∈ es, ¬e.1 <+: p) :
    OpenAlong p v := by
  intro a n w hle hw hclosed
  obtain ⟨e, he, heq⟩ := h.only a n w trivial hw hclosed
  rw [← heq] at hle
  exact hp e he hle

/-- A change past what is open keeps the entries that were there, and outside of the new value it
closes nothing. -/
lemma Contains.put (h : Contains Everywhere es v) (hput : Put p new v v') (hfree : OpenAlong p v)
    (hkeep : ∀ c, c ≠ [] → ∀ w, valueAt? (p ++ c) v = some w → valueAt? c new = some w)
    (hwithin : ∀ e ∈ es, r e.1)
    (hnew : ∀ c w, r (p ++ c) → valueAt? c new = some w → IsClosed w →
      valueAt? (p ++ c) v = some w) : Contains r es v' where
  within := hwithin
  named := h.named
  found := by
    intro e he
    obtain ⟨w, hw, hclosed, hreads⟩ := h.found e he
    exact ⟨w, hput.stays hw (h.not_above hfree e he) fun c hc => hkeep c hc w, hclosed, hreads⟩
  once := h.once
  apart := h.apart
  only := by
    intro a n w hr hw hclosed
    -- the change closes nothing on its way, so what is closed outside of it was closed before
    have hold : ∃ w', valueAt? (a ++ [.name n]) v = some w' ∧ IsClosed w' := by
      by_cases hpa : p <+: a ++ [.name n]
      · obtain ⟨c, hc⟩ := hpa
        rw [← hc] at hr hw ⊢
        rw [hput.below] at hw
        exact ⟨w, hnew c w hr hw hclosed, hclosed⟩
      · by_cases hap : a ++ [.name n] <+: p
        · have hne : a ++ [.name n] ≠ p := by
            rintro rfl
            exact hpa List.prefix_rfl
          have hpassed := hput.way _ hap hne
          rw [hw] at hpassed
          exact hpassed.closed hclosed
        · rw [hput.beside _ hap hpa] at hw
          exact ⟨w, hw, hclosed⟩
    obtain ⟨w', hw', hclosed'⟩ := hold
    exact h.only a n w' trivial hw' hclosed'

/-- A value entered under a new name adds its entries. -/
lemma Contains.enter (h : Contains Everywhere es v) (hput : Put (a ++ [.name n]) new v v')
    (hfree : OpenAlong a v) (hnone : valueAt? (a ++ [.name n]) v = none) (hnew : Says text inner new) :
    Contains Everywhere (es ++ assigned (a ++ [.name n]) text inner) v' := by
  have hbeside : ∀ e ∈ es, ¬a ++ [.name n] <+: e.1 := by
    intro e he hle
    obtain ⟨w, hw, -⟩ := h.found e he
    rw [valueAt?_of_above hnone hle] at hw
    cases hw
  have hopen : OpenAlong (a ++ [.name n]) v := hfree.name fun w hw => by
    rw [hnone] at hw
    cases hw
  have hkept : Contains (fun b => ¬a ++ [.name n] <+: b) es v' := by
    refine h.put hput hopen ?_ hbeside ?_
    · intro c _ w hw
      rw [valueAt?_append_of_none hnone] at hw
      cases hw
    · exact fun c w hr => absurd (List.prefix_append _ c) hr
  have hadded := hnew.contained hput.at
  refine (hkept.union hadded ?_).mono (fun _ _ => trivial) ?_
  · intro e he e' he'
    have hle := hadded.within e' he'
    refine ⟨fun hback => hbeside e he (hle.trans hback), fun hforth => ?_⟩
    rcases List.prefix_or_prefix_of_prefix hforth hle with hway | hway
    · exact absurd hway (h.not_above hopen e he)
    · exact absurd hway (hbeside e he)
  · intro b m w _ _
    exact (Classical.em _).symm

end Contains

/-! ### Arrays -/

/-- The entries of the items of an array from the `i`th one on. -/
inductive Listed : Nat → List Entry → List Value → Prop where
  | nil {i : Nat} : Listed i [] []
  | cons {i : Nat} {text : List Char} {inner es : List Entry} {v : Value} {vs : List Value}
      (h : Says text inner v) (hnext : Listed (i + 1) es vs) :
      Listed i (below [.index i] inner ++ es) (v :: vs)

section Arrays

variable {i : Nat} {es : List Entry} {vs before : List Value} {span : Span}

/-- The addresses below the items from the `i`th one on. -/
def FromItem (i : Nat) (a : Address) : Prop := ∃ k b, i ≤ k ∧ a = .index k :: b

lemma Listed.contains (h : Listed i es vs) (hbefore : before.length = i) :
    Contains (FromItem i) es (.array (before ++ vs) span) := by
  induction h generalizing before with
  | nil =>
    apply contains_nil
    rintro a n w ⟨k, b, hk, heq⟩ hw
    rw [heq, valueAt?, List.append_nil, List.getElem?_eq_none (by omega)] at hw
    cases hw
  | @cons i text inner es v vs h hnext ih =>
    have hitem : valueAt? [.index i] (.array (before ++ v :: vs) span) = some v := by
      rw [valueAt?, List.getElem?_append_right (by omega), hbefore, Nat.sub_self]
      rfl
    have hhead := h.contains.below hitem
    have hlength : (before ++ [v]).length = i + 1 := by simp [hbefore]
    have hrest := ih hlength
    rw [List.append_assoc, List.singleton_append] at hrest
    -- the addresses below this item and below a later one differ in their first index
    have hunion := hhead.union hrest (by
      intro e he e' he'
      obtain ⟨⟨b, hb⟩, -⟩ := hhead.within e he
      obtain ⟨k, b', hk, hb'⟩ := hrest.within e' he'
      have hne : i ≠ k := by omega
      rw [← hb, hb']
      simp [hne, hne.symm])
    refine hunion.mono ?_ ?_
    · intro e he
      rcases hunion.within e he with ⟨⟨b, hb⟩, -⟩ | ⟨k, b, hk, hb⟩
      · exact ⟨i, b, Nat.le_refl i, hb.symm⟩
      · exact ⟨k, b, by omega, hb⟩
    · rintro a n w ⟨k, b, hk, hb⟩ -
      rcases Nat.eq_or_lt_of_le hk with rfl | hlt
      · refine .inl ⟨⟨b, hb.symm⟩, ?_⟩
        intro heq
        have hlast := congrArg List.getLast? heq
        simp at hlast
      · exact .inr ⟨k, b, hlt, hb⟩

lemma Listed.array (h : Listed 0 es vs) : Contains Everywhere es (.array vs span) := by
  have hitems : Contains (FromItem 0) es (.array ([] ++ vs) span) := h.contains List.length_nil
  refine hitems.mono (fun _ _ => trivial) ?_
  intro a n w _ hw
  cases a with
  | nil => cases hw
  | cons s a =>
    cases s with
    | name m => cases hw
    | index k => exact ⟨k, a ++ [.name n], Nat.zero_le k, rfl⟩

lemma Listed.plain (h : Listed i es vs) : Counted [] [] (.array vs span) := by
  have hitem : ∀ v ∈ vs, Counted [] [] v := by
    induction h with
    | nil => exact fun v hv => absurd hv List.not_mem_nil
    | cons h _ ih => exact List.forall_mem_cons.2 ⟨h.plain, ih⟩
  intro a
  cases a with
  | nil => rfl
  | cons s a =>
    cases s with
    | name m => rfl
    | index k =>
      rw [valueAt?]
      cases hk : vs[k]? with
      | none => rfl
      | some v => exact hitem v (List.mem_of_getElem? hk) a

end Arrays

/-! ### Braces -/

/-- The entries of assignments between braces. -/
inductive Paired : List Entry → List Assignment → Prop where
  | nil : Paired [] []
  | cons {text : List Char} {inner es : List Entry} {a : Assignment} {as : List Assignment}
      (h : Says text inner a.value) (hnext : Paired es as) :
      Paired (assigned (pathNames a.path ++ [.name a.key.name]) text inner ++ es) (a :: as)

/-- A table between braces while it is read. -/
structure Braced (es : List Entry) (t : Table Value) : Prop where
  contains : Contains Everywhere es (.table t)
  plain : Counted [] [] (.table t)
  origin : t.origin = .braces

section Braces

variable {es es' : List Entry} {as : List Assignment} {t t' : Table Value}

lemma contains_empty (origin : Origin) :
    Contains Everywhere [] (.table (Table.empty origin)) :=
  contains_leaf fun _ ha => valueAt?_empty rfl ha

lemma counted_empty (origin : Origin) : Counted [] [] (.table (Table.empty origin)) :=
  counted_leaf (fun _ ha => valueAt?_empty rfl ha) rfl

lemma braced_empty : Braced [] (Table.empty .braces) :=
  ⟨contains_empty .braces, counted_empty .braces, rfl⟩

lemma Braced.assign {a : Assignment} {text : List Char} {inner : List Entry} (h : Braced es t)
    (hsaid : Says text inner a.value) (hassign : t.assign a.path a.key a.value = some t') :
    Braced (es ++ assigned (pathNames a.path ++ [.name a.key.name]) text inner) t' := by
  obtain ⟨b, henters, hnone⟩ := assign_enters h.plain hassign
  have hlead := henters.lead
  rw [lead_nil, List.nil_append, List.nil_append] at hlead
  rw [hlead]
  refine ⟨?_, ?_, ?_⟩
  · exact h.contains.enter henters.put henters.free hnone hsaid
  · refine h.plain.put henters.put fun c => ?_
    rw [valueAt?_append_of_none hnone]
    exact (hsaid.plain c).symm
  · exact henters.origin.trans h.origin

lemma Braced.foldlM (h : Braced es t) (hpaired : Paired es' as)
    (hfold : as.foldlM (fun t a => t.assign a.path a.key a.value) t = some t') :
    Braced (es ++ es') t' := by
  induction hpaired generalizing es t with
  | nil =>
    cases hfold
    rwa [List.append_nil]
  | cons hsaid _ ih =>
    obtain ⟨u, hassign, hfold⟩ := Option.bind_eq_some_iff.1 hfold
    rw [← List.append_assoc]
    exact ih (h.assign hsaid hassign) hfold

/-- Where braces stand does not count. -/
lemma Braced.setSpan (h : Braced es t) (span : Option Span) :
    Braced es { t with span := span } := by
  have hat : ∀ a : Address, a ≠ [] →
      valueAt? a (.table { t with span := span }) = valueAt? a (.table t) :=
    fun a ha => valueAt?_congr rfl ha
  refine ⟨⟨h.contains.within, h.contains.named, ?_, h.contains.once, h.contains.apart, ?_⟩, ?_, ?_⟩
  · intro e he
    obtain ⟨a, n, ha⟩ := h.contains.named e he
    rw [hat e.1 (by simp [ha])]
    exact h.contains.found e he
  · intro a n w hr hw
    rw [hat _ (by simp)] at hw
    exact h.contains.only a n w hr hw
  · intro a
    by_cases ha : a = []
    · subst ha
      rfl
    · rw [hat a ha]
      exact h.plain a
  · exact h.origin

end Braces

/-! ### Readers -/

section Readers

/-- The reader takes what the grammar has, and its values contain the entries written there. -/
def ReadsWritten (read? : Reader Value) : Prop :=
  ∀ cs v rest, read? cs = some (v, rest) → ∃ es, Writes .value cs es rest ∧ Says cs es v

variable {read? : Reader Value} {cs rest : List Char} (hread : ReadsWritten read?)
include hread

lemma itemsFrom_listed {done items : List Value} {fuel i : Nat}
    (h : itemsFrom read? done fuel cs = some (items, rest)) :
    ∃ vs es, items = done.reverse ++ vs ∧ Writes (.items i) cs es rest ∧ Listed i es vs := by
  induction fuel generalizing done cs i with
  | zero => cases h
  | succ fuel ih =>
    rw [itemsFrom] at h
    split at h
    · next hend =>
      cases h
      exact ⟨[], [], (List.append_nil _).symm, .noItem hend, .nil⟩
    · obtain ⟨⟨item, stop⟩, hitem, h⟩ := Option.bind_eq_some_iff.1 h
      obtain ⟨es, hwrites, hsaid⟩ := hread _ _ _ hitem
      dsimp only at h
      split at h
      · next hcomma =>
        obtain ⟨vs, es', rfl, hwrites', hlisted⟩ := ih (i := i + 1) h
        refine ⟨item :: vs, _, ?_, .item hwrites (.nextItem hcomma hwrites'), .cons hsaid hlisted⟩
        rw [List.reverse_cons, List.append_assoc, List.singleton_append]
      · next hend =>
        cases h
        exact ⟨[item], _, List.reverse_cons, .item hwrites (.lastItem hend), .cons hsaid .nil⟩
      · cases h

lemma assignment?_written {a : Assignment} (h : assignment? read? cs = some (a, rest)) :
    ∃ after es, key? cs = some ((a.path, a.key), '=' :: after) ∧
      Writes .value (skipBlanks after) es rest ∧ Says (skipBlanks after) es a.value := by
  obtain ⟨⟨⟨path, key⟩, cs₁⟩, hkey, h⟩ := Option.bind_eq_some_iff.1 h
  obtain ⟨after, hmark, h⟩ := Option.bind_eq_some_iff.1 h
  obtain ⟨⟨v, stop⟩, hv, h⟩ := Option.bind_eq_some_iff.1 h
  cases h
  obtain ⟨es, hwrites, hsaid⟩ := hread _ _ _ hv
  have hcs₁ := Reader.literal?_eq_some_iff.1 hmark
  rw [List.singleton_append] at hcs₁
  rw [hcs₁] at hkey
  exact ⟨after, es, hkey, hwrites, hsaid⟩

lemma assignmentsFrom_paired {done assignments : List Assignment} {fuel : Nat}
    (h : assignmentsFrom read? done fuel cs = some (assignments, rest)) :
    ∃ as es, assignments = done.reverse ++ as ∧ Writes .pairs cs es rest ∧ Paired es as := by
  induction fuel generalizing done cs with
  | zero => cases h
  | succ fuel ih =>
    obtain ⟨⟨a, stop⟩, ha, h⟩ := Option.bind_eq_some_iff.1 h
    obtain ⟨after, es, hkey, hwrites, hsaid⟩ := assignment?_written hread ha
    dsimp only at h
    split at h
    · next hcomma =>
      obtain ⟨as, es', rfl, hwrites', hpaired⟩ := ih h
      refine ⟨a :: as, _, ?_, .pair hkey hwrites (.nextPair hcomma hwrites'), .cons hsaid hpaired⟩
      rw [List.reverse_cons, List.append_assoc, List.singleton_append]
    · next hend =>
      cases h
      exact ⟨[a], _, List.reverse_cons, .pair hkey hwrites (.lastPair hend), .cons hsaid .nil⟩
    · cases h

lemma braced?_written {assignments : List Assignment} {t : Table Value}
    (h : braced? read? cs = some (assignments, rest)) (ht : ofAssignments? assignments = some t) :
    ∃ es, Writes .value ('\x7b' :: cs) es rest ∧ Braced es t := by
  rw [braced?] at h
  split at h
  · next hend =>
    cases h
    cases ht
    exact ⟨[], .noPair hend, braced_empty⟩
  · obtain ⟨as, es, rfl, hwrites, hpaired⟩ := assignmentsFrom_paired hread h
    exact ⟨es, .braces hwrites, braced_empty.foldlM hpaired ht⟩

omit hread

lemma scalar?_written {s : Scalar} {span : Span} (h : scalar? cs = some (s, rest))
    (hreads : Reads cs (.scalar s span)) :
    ∃ es, Writes .value cs es rest ∧ Says cs es (.scalar s span) := by
  have hleaf : ∀ a, a ≠ [] → valueAt? a (.scalar s span) = none := fun _ ha => valueAt?_scalar ha
  exact ⟨[], .scalar h, ⟨rest, .scalar h⟩, hreads, contains_leaf hleaf, trivial,
    counted_leaf hleaf rfl⟩

/-- Every value that is read contains what is written. -/
lemma value?_written {depth : Nat} (hdepth : depth < depthLimit) : ReadsWritten (value? depth) := by
  induction depth with
  | zero =>
    intro cs v rest h
    have hreads := reads_of_value? hdepth h
    obtain ⟨⟨s, stop⟩, hs, heq⟩ := Option.map_eq_some_iff.1 h
    cases heq
    exact scalar?_written hs hreads
  | succ depth ih =>
    intro cs v rest h
    have hreads := reads_of_value? hdepth h
    have hinner := ih (Nat.lt_of_succ_lt hdepth)
    cases value?_form h with
    | scalar hs => exact scalar?_written hs hreads
    | array hitems =>
      obtain ⟨vs, es, rfl, hwrites, hlisted⟩ := itemsFrom_listed hinner (i := 0) hitems
      exact ⟨es, .array hwrites, ⟨_, .array hwrites⟩, hreads, hlisted.array, trivial, hlisted.plain⟩
    | braces hbraced ht =>
      obtain ⟨es, hwrites, htable⟩ := braced?_written hinner hbraced ht
      exact ⟨es, hwrites, ⟨_, hwrites⟩, hreads, (htable.setSpan _).contains, htable.origin,
        (htable.setSpan _).plain⟩

end Readers

end MemberRelay.Proofs
