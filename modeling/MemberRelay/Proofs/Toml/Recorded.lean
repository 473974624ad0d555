import MemberRelay.Proofs.Toml.Outline

/-!
# Documents record their statements

The table of a document contains the entries of its text and nothing else. Each header opened a table
that no other header had opened, outside of every closed value.
-/

namespace MemberRelay.Proofs
open Toml

/-- A header opened the table at an address. -/
def IsOpened (a : Address) (v : Value) : Prop :=
  ∃ t : Table Value, valueAt? a v = some (.table t) ∧ t.origin = .header

/-- A table holds the entries of a text and the tables that its headers open. No table is opened
twice, and none in a closed value. -/
structure Recorded (es : List Entry) (hs : List Address) (t : Table Value) : Prop where
  contains : Contains Everywhere es (.table t)
  opened : ∀ h ∈ hs, IsOpened h (.table t)
  clear : ∀ e ∈ es, ∀ h ∈ hs, ¬e.1 <+: h
  once : hs.Nodup

/-- A document in the making, after statements with these entries and headers. -/
structure Drafted (o : Outline) (es : List Entry) (hs : List Address) (d : Draft) : Prop extends
    Recorded es hs d.root where
  counted : Counted o.opened [] (.table d.root)
  leads : lead o.opened [] d.current = o.current
  here : o.current = [] ∨ o.current ∈ hs

/-! ### What headers keep -/

/-- A value takes the place of one that was open and not opened by a header of its own. What stood
below stays, and only open values are new. -/
structure Grows (old : Option Value) (new : Value) : Prop where
  wasOpen : ∀ w, old = some w → ¬IsClosed w
  unopened : ∀ t, old = some (.table t) → t.origin ≠ .header
  keeps : ∀ c, c ≠ [] → ∀ w, old.bind (valueAt? c) = some w → valueAt? c new = some w
  only : ∀ c w, valueAt? c new = some w → IsClosed w → old.bind (valueAt? c) = some w
  counts : ∀ c, c ≠ [] → elements (valueAt? c new) = elements (old.bind (valueAt? c))

section Headers

variable {span : Span} {old : Option Value} {new v v' : Value} {a c p : Address}
  {t : Table Value}

lemma Opens.below (h : Opens span old new) (hc : c ≠ []) :
    valueAt? c new = old.bind (valueAt? c) := by
  cases h with
  | new => exact valueAt?_empty rfl hc
  | passed h => exact valueAt?_congr rfl hc

lemma Opens.grows (h : Opens span old new) : Grows old new where
  wasOpen w hw hclosed := by
    cases h with
    | new => cases hw
    | passed hpassing =>
      cases hw
      rw [show _ = Origin.braces from hclosed] at hpassing
      cases hpassing
  unopened t ht := by
    cases h with
    | new => cases ht
    | passed hpassing =>
      cases ht
      rw [hpassing]
      decide
  keeps c hc w hw := by rwa [h.below hc]
  only c w hw hclosed := by
    by_cases hc : c = []
    · subst hc
      cases hw
      cases h <;> cases hclosed
    · rwa [← h.below hc]
  counts c hc := by rw [h.below hc]

lemma Opens.table (h : Opens span old new) :
    (∃ t : Table Value, new = .table t ∧ t.origin = .header) ∧ elements old = 0 := by
  cases h <;> exact ⟨⟨_, rfl, rfl⟩, rfl⟩

/-- The tables that a header in double brackets found. -/
lemma Adds.found (h : Adds span old new) : ∃ ts : List (Table Value),
    new = .tables (ts ++ [⟨.header, some span, []⟩]) ∧ elements old = ts.length ∧
      (∀ w, old = some w → w = .tables ts) ∧
      ∀ c, c ≠ [] → old.bind (valueAt? c) = valueAt? c (.tables ts) := by
  cases h with
  | first =>
    refine ⟨[], rfl, rfl, fun w hw => (nomatch hw), fun c hc => ?_⟩
    cases c with
    | nil => exact absurd rfl hc
    | cons s c => cases s <;> rfl
  | next => exact ⟨_, rfl, rfl, fun w hw => (Option.some.inj hw).symm, fun c _ => rfl⟩

lemma Adds.grows (h : Adds span old new) : Grows old new := by
  obtain ⟨ts, rfl, -, hold, hbelow⟩ := h.found
  -- the new table is open, and nothing stands below it
  have hopen : ∀ d w, valueAt? d (.table ⟨.header, some span, []⟩) = some w →
      d = [] ∧ w = .table ⟨.header, some span, []⟩ := by
    intro d w hw
    by_cases hd : d = []
    · subst hd
      exact ⟨rfl, (Option.some.inj hw).symm⟩
    · rw [valueAt?_empty rfl hd] at hw
      cases hw
  refine ⟨?_, ?_, ?_, ?_, ?_⟩
  · intro w hw hclosed
    rw [hold w hw] at hclosed
    exact hclosed
  · intro t ht
    cases hold _ ht
  · intro c hc w hw
    rw [hbelow c hc] at hw
    rw [valueAt?_concat hc, hw]
    rintro d rfl
    rw [valueAt?_beyond] at hw
    cases hw
  · intro c w hw hclosed
    have hc : c ≠ [] := by
      rintro rfl
      cases hw
      exact hclosed
    rw [hbelow c hc, ← valueAt?_concat hc, hw]
    rintro d rfl
    rw [valueAt?_last] at hw
    obtain ⟨-, rfl⟩ := hopen d w hw
    cases hclosed
  · intro c hc
    rw [hbelow c hc]
    by_cases hlast : ∃ d, c = .index ts.length :: d
    · obtain ⟨d, rfl⟩ := hlast
      rw [valueAt?_last, valueAt?_beyond]
      cases hw : valueAt? d (.table ⟨.header, some span, []⟩) with
      | none => rfl
      | some w =>
        obtain ⟨-, rfl⟩ := hopen d w hw
        rfl
    · rw [valueAt?_concat hc fun d hd => hlast ⟨d, hd⟩]

lemma Passed.of_table {v? : Option Value} (h : Passed (some (.table t)) v?) :
    ∃ t' : Table Value, v? = some (.table t') ∧ t'.origin = t.origin := by
  cases h with
  | table h => exact ⟨_, rfl, h⟩

lemma IsOpened.put (h : IsOpened a v) (hput : Put p new v v') (hp : ¬IsOpened p v)
    (hkeep : ∀ c, c ≠ [] → ∀ w, valueAt? (p ++ c) v = some w → valueAt? c new = some w) :
    IsOpened a v' := by
  obtain ⟨t, ht, horigin⟩ := h
  by_cases hap : a <+: p
  · have hne : a ≠ p := by
      rintro rfl
      exact hp ⟨t, ht, horigin⟩
    have hpassed := hput.way a hap hne
    rw [ht] at hpassed
    obtain ⟨t', ht', hkept⟩ := hpassed.of_table
    exact ⟨t', ht', hkept.trans horigin⟩
  · exact ⟨t, hput.stays ht hap fun c hc => hkeep c hc _, horigin⟩

end Headers

/-! ### Statements -/

section Statements

variable {o : Outline} {es : List Entry} {hs : List Address} {d : Draft} {a : Address}
  {path : List Key} {key : Key} {span : Span} {root : Table Value} {new : Value}

lemma drafted_start : Drafted .start [] [] ⟨Table.empty .header, []⟩ where
  contains := contains_empty .header
  counted := counted_empty .header
  leads := rfl
  here := .inl rfl
  opened _ hh := absurd hh List.not_mem_nil
  clear _ he := absurd he List.not_mem_nil
  once := List.nodup_nil

/-- Assignments go where no header leads through a closed value. -/
lemma Drafted.openAlong_current (hd : Drafted o es hs d) :
    OpenAlong (lead o.opened [] d.current) (.table d.root) := by
  rw [hd.leads]
  rcases hd.here with hnil | hmem
  · rw [hnil]
    exact openAlong_nil
  · exact hd.contains.openAlong fun e he => hd.clear e he _ hmem

lemma Drafted.assign {a : Assignment} {text : List Char} {inner : List Entry} {d' : Draft}
    (hd : Drafted o es hs d) (hsaid : Says text inner a.value)
    (hadd : d.add (.assign a) = some d') :
    Drafted o (es ++ assigned (o.entry a.path a.key) text inner) hs d' := by
  obtain ⟨root, hroot, rfl⟩ := Option.map_eq_some_iff.1 hadd
  obtain ⟨b, henters, hnone⟩ := within_enters hd.counted hd.openAlong_current hroot
  have hlead := henters.lead
  rw [lead_append, hd.leads, List.nil_append] at hlead
  have hbelow : ∀ c, valueAt? (b ++ [.name a.key.name] ++ c) (.table d.root) = none :=
    valueAt?_append_of_none hnone
  have hclosed : ¬IsOpened (b ++ [.name a.key.name]) (.table d.root) := by
    rintro ⟨t, ht, -⟩
    rw [hnone] at ht
    cases ht
  rw [Outline.entry, hlead]
  refine ⟨⟨?_, ?_, ?_, hd.once⟩, ?_, hd.leads, hd.here⟩
  · exact hd.contains.enter henters.put henters.free hnone hsaid
  · intro h hh
    refine (hd.opened h hh).put henters.put hclosed fun c _ w hw => ?_
    rw [hbelow] at hw
    cases hw
  · intro e he h hh hle
    rcases List.mem_append.1 he with he | he
    · exact hd.clear e he h hh hle
    · obtain ⟨t, ht, -⟩ := hd.opened h hh
      have hin := (hsaid.contained henters.put.at).within e he
      rw [valueAt?_of_above hnone (hin.trans hle)] at ht
      cases ht
  · refine hd.counted.put henters.put fun c => ?_
    rw [hbelow]
    exact (hsaid.plain c).symm

lemma Enters.header (h : Enters o.opened [] path key d.root root a new) :
    o.header path key = a ++ [.name key.name] := by
  rw [Outline.header, h.lead, List.nil_append]

/-- A header leaves what there is, outside of its own place. -/
lemma Drafted.headed (hd : Drafted o es hs d)
    (henters : Enters o.opened [] path key d.root root a new)
    (hgrows : Grows (valueAt? (a ++ [.name key.name]) (.table d.root)) new) :
    OpenAlong (a ++ [.name key.name]) (.table d.root) ∧
      Contains Everywhere es (.table root) ∧ ∀ h ∈ hs, IsOpened h (.table root) := by
  have hfree := henters.free.name hgrows.wasOpen
  have hkeep : ∀ c, c ≠ [] → ∀ w,
      valueAt? (a ++ [.name key.name] ++ c) (.table d.root) = some w → valueAt? c new = some w := by
    intro c hc w hw
    rw [valueAt?_append] at hw
    exact hgrows.keeps c hc w hw
  refine ⟨hfree, ?_, ?_⟩
  · refine hd.contains.put henters.put hfree hkeep (fun _ _ => trivial) fun c w _ hw hclosed => ?_
    rw [valueAt?_append]
    exact hgrows.only c w hw hclosed
  · refine fun h hh => (hd.opened h hh).put henters.put ?_ hkeep
    rintro ⟨t, ht, horigin⟩
    exact hgrows.unopened t ht horigin

/-- A header that opens a new table, outside of what is closed. -/
lemma Drafted.opens {o' : Outline} {d' : Draft} (hd : Drafted o es hs d)
    (hcontains : Contains Everywhere es (.table d'.root))
    (hopened : ∀ h ∈ hs, IsOpened h (.table d'.root))
    (hcounted : Counted o'.opened [] (.table d'.root))
    (hleads : lead o'.opened [] d'.current = o'.current)
    (hfree : OpenAlong o'.current (.table d.root)) (hold : ¬IsOpened o'.current (.table d.root))
    (hnew : IsOpened o'.current (.table d'.root)) :
    Drafted o' es (hs ++ [o'.current]) d' where
  contains := hcontains
  counted := hcounted
  leads := hleads
  here := .inr (List.mem_append_right _ (List.mem_singleton_self _))
  opened := List.forall_mem_append.2 ⟨hopened, List.forall_mem_singleton.2 hnew⟩
  clear e he := List.forall_mem_append.2
    ⟨hd.clear e he, List.forall_mem_singleton.2 (hd.contains.not_above hfree e he)⟩
  once := by
    rw [List.nodup_append]
    refine ⟨hd.once, List.nodup_singleton _, ?_⟩
    rintro h hh h' hh' rfl
    rw [List.mem_singleton.1 hh'] at hh
    exact hold (hd.opened _ hh)

lemma Drafted.openTable {d' : Draft} (hd : Drafted o es hs d)
    (hadd : d.add (.openTable path key span) = some d') :
    Drafted (o.openTable path key) es (hs ++ [(o.openTable path key).current]) d' := by
  obtain ⟨root, hroot, rfl⟩ := Option.map_eq_some_iff.1 hadd
  obtain ⟨a, new, henters, hopens⟩ := openTable_enters hd.counted hroot
  obtain ⟨hfree, hcontains, hopened⟩ := hd.headed henters hopens.grows
  have hput := henters.put
  rw [← henters.header] at hfree hopens hput
  obtain ⟨⟨t, rfl, horigin⟩, hnone⟩ := hopens.table
  have hcounted : Counted o.opened [] (.table root) := by
    refine hd.counted.put hput fun c => ?_
    by_cases hc : c = []
    · subst hc
      rw [List.append_nil, hnone]
      rfl
    · rw [valueAt?_append]
      exact hopens.grows.counts c hc
  refine hd.opens hcontains hopened hcounted ?_ hfree ?_ ⟨t, hput.at, horigin⟩
  · have hzero : o.opened.count (o.header path key) = 0 := by
      have hcount := hcounted (o.header path key)
      rwa [hput.at] at hcount
    rw [lead_append]
    exact lastOf_of_zero hzero
  · rintro ⟨u, hu, hheader⟩
    exact hopens.grows.unopened u hu hheader

lemma Drafted.openElement {d' : Draft} (hd : Drafted o es hs d)
    (hadd : d.add (.openElement path key span) = some d') :
    Drafted (o.openElement path key) es (hs ++ [(o.openElement path key).current]) d' := by
  obtain ⟨root, hroot, rfl⟩ := Option.map_eq_some_iff.1 hadd
  obtain ⟨a, new, henters, hadds⟩ := openElement_enters hd.counted hroot
  obtain ⟨hfree, hcontains, hopened⟩ := hd.headed henters hadds.grows
  have hput := henters.put
  rw [← henters.header] at hfree hadds hput
  obtain ⟨ts, rfl, hlen, -, hbelow⟩ := hadds.found
  have hcount : o.opened.count (o.header path key) = ts.length := by
    rw [← hlen]
    exact hd.counted (o.header path key)
  have hcurrent : (o.openElement path key).current =
      o.header path key ++ [.index ts.length] := by
    rw [Outline.openElement, hcount]
  have hcounted : Counted (o.header path key :: o.opened) [] (.table root) := by
    refine hd.counted.put_cons hput ?_ fun c hc => ?_
    · rw [hlen]
      exact List.length_append
    · rw [valueAt?_append]
      exact hadds.grows.counts c hc
  refine hd.opens hcontains hopened hcounted ?_ ?_ ?_ ?_
  · -- the address of the new table is longer than any on the way to it
    have hway : ¬o.header path key <+: lead o.opened [] path := by
      intro hle
      have hlength := hle.length_le
      rw [Outline.header, List.length_append, List.length_singleton] at hlength
      omega
    rw [hcurrent, ← hcount, lead_append, Outline.openElement, lead_cons hway]
    exact lastOf_of_succ List.count_cons_self
  · rw [hcurrent]
    exact hfree.index _
  · rintro ⟨u, hu, -⟩
    rw [hcurrent, valueAt?_append, hbelow _ (List.cons_ne_nil _ _), valueAt?_beyond] at hu
    cases hu
  · refine ⟨⟨.header, some span, []⟩, ?_, rfl⟩
    rw [hcurrent, hput.below, valueAt?_last]
    rfl

/-- Each statement adds its entries or its header. -/
lemma Drafted.foldlM {ss : List Statement} {es' : List Entry} {hs' : List Address} {d' : Draft}
    (hd : Drafted o es hs d) (htold : Told o es' hs' ss) (hfold : ss.foldlM Draft.add d = some d') :
    ∃ o', Drafted o' (es ++ es') (hs ++ hs') d' := by
  induction htold generalizing es hs d with
  | nil =>
    cases hfold
    rw [List.append_nil, List.append_nil]
    exact ⟨_, hd⟩
  | assign hsaid _ ih =>
    obtain ⟨d₁, hadd, hfold⟩ := Option.bind_eq_some_iff.1 hfold
    rw [← List.append_assoc]
    exact ih (hd.assign hsaid hadd) hfold
  | openTable _ ih =>
    obtain ⟨d₁, hadd, hfold⟩ := Option.bind_eq_some_iff.1 hfold
    rw [List.append_cons]
    exact ih (hd.openTable hadd) hfold
  | openElement _ ih =>
    obtain ⟨d₁, hadd, hfold⟩ := Option.bind_eq_some_iff.1 hfold
    rw [List.append_cons]
    exact ih (hd.openElement hadd) hfold

end Statements

/-! ### Documents -/

theorem document?_recorded {cs : List Char} {t : Table Value} (h : document? cs = some t) :
    ∃ es hs, Lists .start (withoutMark cs) es hs ∧ Recorded es hs t := by
  obtain ⟨ss, hss, hof⟩ := Option.bind_eq_some_iff.1 h
  obtain ⟨d, hfold, rfl⟩ := Option.map_eq_some_iff.1 hof
  obtain ⟨es, hs, hlists, htold⟩ := statements?_told hss
  obtain ⟨o, hd⟩ := drafted_start.foldlM htold hfold
  exact ⟨es, hs, hlists, hd.toRecorded⟩

end MemberRelay.Proofs
