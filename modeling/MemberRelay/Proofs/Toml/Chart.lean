import Mathlib.Logic.Function.Basic
import MemberRelay.Proofs.Toml.Places
import MemberRelay.Proofs.Toml.Recorded

/-!
# Charts

What the statements of a document say of each address: the key that it is known by, and the span of
its header. The table of a document keeps to its chart: each entry has the key of its address, each
table that a header opened has the span of the header, and entries are in the order of their keys in
the text.
-/

namespace MemberRelay.Proofs
open Toml

/-- The key that an address is known by, and the span of its header if it has one. -/
structure Mark where
  key : Key
  span : Option Span

/-- A span up to the end of a value. -/
def reach (s : Span) (v : Value) : Span := ⟨s.start, (v.span?.map Span.stop).getD s.stop⟩

/-- A header reaches to the end of what is assigned under it. -/
def Mark.extend (m : Mark) (v : Value) : Mark := { m with span := m.span.map (reach · v) }

/-- The keys of a path, each with its address. -/
def along (opened : List Address) (base : Address) : List Key → List (Address × Key)
  | [] => []
  | key :: path =>
    (base ++ [.name key.name], key) :: along opened (lastOf opened (base ++ [.name key.name])) path

/-- What headers have opened so far, and the mark of each address. -/
structure Chart extends Outline where
  mark? : Address → Option Mark

namespace Chart

def start : Chart := ⟨.start, fun _ => none⟩

/-- An address without a mark is marked with its first key. -/
def note (l : Chart) (keys : List (Address × Key)) : Chart :=
  { l with mark? := fun a => (l.mark? a).or ((keys.lookup a).map (⟨·, none⟩)) }

/-- The header of the table that is open is extended by a value. -/
def extend (l : Chart) (v : Value) : Chart :=
  { l with mark? := fun a => if a = l.current then (l.mark? a).map (·.extend v) else l.mark? a }

/-- A header marks its path; the table that it opens is known by the key of that header. -/
def head (l : Chart) (o : Outline) (path : List Key) (key : Key) (span : Span) : Chart :=
  ⟨o, Function.update (l.note (along l.opened [] (path ++ [key]))).mark? o.current
    (some ⟨key, some span⟩)⟩

def add (l : Chart) : Statement → Chart
  | .assign a => (l.extend a.value).note (along l.opened l.current (a.path ++ [a.key]))
  | .openTable path key span => l.head (l.openTable path key) path key span
  | .openElement path key span => l.head (l.openElement path key) path key span

/-- Where what has no text of its own is found: at its header, or else where its key stands; several
tables reach from the first header to the last. -/
def source? (l : Chart) (a : Address) : Option Span :=
  match l.opened.count a with
  | 0 => (l.mark? a).map fun m => m.span.getD m.key.span
  | n + 1 => do
    let first ← (l.mark? (a ++ [.index 0])).bind Mark.span
    let last ← (l.mark? (a ++ [.index n])).bind Mark.span
    some ⟨first.start, last.stop⟩

end Chart

/-- The chart of a document with these statements. -/
def chart (ss : List Statement) : Chart := ss.foldl Chart.add .start

/-- A table at an address keeps to its marks, and so do the tables below it. -/
inductive Laid (mark? : Address → Option Mark) : Address → Table Value → Prop where
  | intro {a : Address} {t : Table Value} (span : t.span = (mark? a).bind Mark.span)
      (keys : ∀ e ∈ t.entries, (mark? (a ++ [.name e.1.name])).map Mark.key = some e.1)
      (sorted : t.entries.Pairwise fun e f => Before e.1 f.1)
      (full : ∀ e ∈ t.entries, e.2 ≠ .tables [])
      (table : ∀ e ∈ t.entries, ∀ child, e.2 = .table child → child.origin ≠ .braces →
        Laid mark? (a ++ [.name e.1.name]) child)
      (tables : ∀ e ∈ t.entries, ∀ ts, e.2 = .tables ts → ∀ i child, ts[i]? = some child →
        Laid mark? (a ++ [.name e.1.name] ++ [.index i]) child) :
      Laid mark? a t

/-- The tables of a value at an address keep to their marks. -/
structure LaidValue (mark? : Address → Option Mark) (a : Address) (v : Value) : Prop where
  full : v ≠ .tables []
  table : ∀ child, v = .table child → child.origin ≠ .braces → Laid mark? a child
  tables : ∀ ts, v = .tables ts → ∀ i child, ts[i]? = some child → Laid mark? (a ++ [.index i]) child

/-! ### Paths -/

section Paths

variable {opened : List Address} {base : Address} {path : List Key} {key : Key} {p : Address × Key}

lemma along_append (path' : List Key) : along opened base (path ++ path') =
    along opened base path ++ along opened (lead opened base path) path' := by
  induction path generalizing base with
  | nil => rfl
  | cons key path ih =>
    rw [List.cons_append, along, ih]
    rfl

lemma prefix_of_mem_along (h : p ∈ along opened base path) : ∃ n, base ++ [.name n] <+: p.1 := by
  induction path generalizing base with
  | nil => exact absurd h List.not_mem_nil
  | cons key path ih =>
    rcases List.mem_cons.1 h with rfl | h
    · exact ⟨key.name, List.prefix_rfl⟩
    · obtain ⟨n, hn⟩ := ih h
      exact ⟨key.name, (prefix_lastOf.trans (List.prefix_append _ _)).trans hn⟩

lemma prefix_lead_of_mem_along (h : p ∈ along opened base path) : p.1 <+: lead opened base path := by
  induction path generalizing base with
  | nil => exact absurd h List.not_mem_nil
  | cons key path ih =>
    rcases List.mem_cons.1 h with rfl | h
    · exact prefix_lastOf.trans prefix_lead
    · exact ih h

/-- The addresses of a path differ, so each has the key that stands there. -/
lemma lookup_along (h : p ∈ along opened base path) : (along opened base path).lookup p.1 = some p.2 := by
  induction path generalizing base with
  | nil => exact absurd h List.not_mem_nil
  | cons key path ih =>
    rcases List.mem_cons.1 h with rfl | h
    · rw [along, List.lookup_cons_self]
    · -- what comes later on the path is longer
      obtain ⟨n, hn⟩ := prefix_of_mem_along h
      have hne : p.1 ≠ base ++ [.name key.name] := by
        intro heq
        have hlast : base ++ [.name key.name] <+: lastOf opened (base ++ [.name key.name]) :=
          prefix_lastOf
        have hle := hlast.length_le
        have hlonger := hn.length_le
        rw [heq, List.length_append, List.length_singleton] at hlonger
        omega
      rw [along, List.lookup_cons, beq_eq_false_iff_ne.2 hne]
      exact ih h

lemma mem_along_concat (h : p ∈ along opened base path) : p ∈ along opened base (path ++ [key]) := by
  rw [along_append]
  exact List.mem_append_left _ h

lemma last_mem_along :
    (lead opened base path ++ [.name key.name], key) ∈ along opened base (path ++ [key]) := by
  rw [along_append]
  exact List.mem_append_right _ (List.mem_singleton_self _)

lemma mem_keys_of_mem_along (h : p ∈ along opened base path) : p.2 ∈ path := by
  induction path generalizing base with
  | nil => exact absurd h List.not_mem_nil
  | cons key path ih =>
    rcases List.mem_cons.1 h with rfl | h
    · exact List.mem_cons_self
    · exact List.mem_cons_of_mem _ (ih h)

end Paths

/-! ### Tables that keep to their marks -/

section Laid

variable {mark? mark?' : Address → Option Mark} {a x : Address} {t t' : Table Value} {v : Value}
  {n : String} {key : Key} {e : Key × Value}

lemma Laid.span (h : Laid mark? a t) : t.span = (mark? a).bind Mark.span := by
  cases h with
  | intro span => exact span

lemma Laid.known (h : Laid mark? a t) (he : e ∈ t.entries) :
    (mark? (a ++ [.name e.1.name])).map Mark.key = some e.1 := by
  cases h with
  | intro _ keys => exact keys e he

lemma Laid.sorted (h : Laid mark? a t) : t.entries.Pairwise fun e f => Before e.1 f.1 := by
  cases h with
  | intro _ _ sorted => exact sorted

lemma Laid.value (h : Laid mark? a t) (he : e ∈ t.entries) :
    LaidValue mark? (a ++ [.name e.1.name]) e.2 := by
  cases h with
  | intro _ _ _ full table tables => exact ⟨full e he, table e he, tables e he⟩

lemma laid_of_values (hspan : t.span = (mark? a).bind Mark.span)
    (hkeys : ∀ e ∈ t.entries, (mark? (a ++ [.name e.1.name])).map Mark.key = some e.1)
    (hsorted : t.entries.Pairwise fun e f => Before e.1 f.1)
    (hvalues : ∀ e ∈ t.entries, LaidValue mark? (a ++ [.name e.1.name]) e.2) : Laid mark? a t :=
  .intro hspan hkeys hsorted (fun e he => (hvalues e he).full) (fun e he => (hvalues e he).table)
    fun e he => (hvalues e he).tables

lemma laid_empty {origin : Origin} (h : mark? a = none) : Laid mark? a (Table.empty origin) := by
  have hnone : ∀ e ∈ (Table.empty origin : Table Value).entries, False := fun e he => by cases he
  refine laid_of_values ?_ (fun e he => (hnone e he).elim) .nil fun e he => (hnone e he).elim
  rw [h]
  rfl

lemma Laid.congr (h : Laid mark? a t) (hagree : ∀ b, a <+: b → mark?' b = mark? b) :
    Laid mark?' a t := by
  induction h with
  | @intro a t span keys sorted full _ _ ihtable ihtables =>
    have hname : ∀ n b, a ++ [.name n] <+: b → mark?' b = mark? b :=
      fun n b hb => hagree b ((List.prefix_append _ _).trans hb)
    refine .intro ?_ ?_ sorted full ?_ ?_
    · rw [hagree a List.prefix_rfl]
      exact span
    · intro e he
      rw [hname _ _ List.prefix_rfl]
      exact keys e he
    · exact fun e he child hchild horigin => ihtable e he child hchild horigin (hname _)
    · intro e he ts hts i child hi
      exact ihtables e he ts hts i child hi fun b hb => hname _ b ((List.prefix_append _ _).trans hb)

lemma LaidValue.congr (h : LaidValue mark? a v) (hagree : ∀ b, a <+: b → mark?' b = mark? b) :
    LaidValue mark?' a v where
  full := h.full
  table child hchild horigin := (h.table child hchild horigin).congr hagree
  tables ts hts i child hi :=
    (h.tables ts hts i child hi).congr fun b hb => hagree b ((List.prefix_append _ _).trans hb)

lemma laidValue_of_closed (h : IsClosed v) : LaidValue mark? a v where
  full := by
    rintro rfl
    exact h
  table child hchild horigin := by
    rw [hchild] at h
    exact absurd h horigin
  tables ts hts := by
    rw [hts] at h
    exact h.elim

lemma laidValue_table (h : Laid mark? a t) : LaidValue mark? a (.table t) where
  full := nofun
  table child hchild _ := by
    cases hchild
    exact h
  tables ts hts := nomatch hts

/-- A table with the same entries and another header. -/
lemma Laid.reheaded (h : Laid mark? a t) (hbelow : ∀ b, a <+: b → b ≠ a → mark?' b = mark? b)
    (hspan : t'.span = (mark?' a).bind Mark.span) (hentries : t'.entries = t.entries) :
    Laid mark?' a t' := by
  have hname : ∀ n b, a ++ [.name n] <+: b → mark?' b = mark? b := by
    intro n b hb
    refine hbelow b ((List.prefix_append _ _).trans hb) ?_
    rintro rfl
    have hlength := hb.length_le
    rw [List.length_append, List.length_singleton] at hlength
    omega
  refine laid_of_values hspan ?_ ?_ ?_
  · rw [hentries]
    intro e he
    rw [hname _ _ List.prefix_rfl]
    exact h.known he
  · rw [hentries]
    exact h.sorted
  · rw [hentries]
    exact fun e he => (h.value he).congr (hname _)

/-- A marking that differs from another one on the way to an address only, and keeps the keys on that
way. -/
structure Leads (mark? mark?' : Address → Option Mark) (x : Address) : Prop where
  off : ∀ b, ¬b <+: x → mark?' b = mark? b
  kept : ∀ b m, b ≠ x → mark? b = some m → (mark?' b).map Mark.key = some m.key

/-- A table in which only what has one name is new. -/
lemma Laid.replace (h : Laid mark? a t) (hleads : Leads mark? mark?' x) (hx : a ++ [.name n] <+: x)
    (hspan : t'.span = (mark?' a).bind Mark.span)
    (hsorted : t'.entries.Pairwise fun e f => Before e.1 f.1)
    (hentries : ∀ e ∈ t'.entries, e ∈ t.entries ∧ e.1.name ≠ n ∨ e.1.name = n ∧
      (mark?' (a ++ [.name n])).map Mark.key = some e.1 ∧ LaidValue mark?' (a ++ [.name n]) e.2) :
    Laid mark?' a t' := by
  have hbeside : ∀ {m : String}, m ≠ n → ∀ b, a ++ [.name m] <+: b → mark?' b = mark? b := by
    intro m hm b hb
    refine hleads.off b fun hbx => hm ?_
    have hsame := List.prefix_of_prefix_length_le (hb.trans hbx) hx (by simp)
    have heq := hsame.eq_of_length (by simp)
    simpa using heq
  refine laid_of_values hspan (fun e he => ?_) hsorted fun e he => ?_
  · rcases hentries e he with ⟨hold, hne⟩ | ⟨rfl, hkey, -⟩
    · rw [hbeside hne _ List.prefix_rfl]
      exact h.known hold
    · exact hkey
  · rcases hentries e he with ⟨hold, hne⟩ | ⟨rfl, -, hvalue⟩
    · exact (h.value hold).congr (hbeside hne)
    · exact hvalue

lemma Laid.before (h : Laid mark? a t) (hlate : ∀ b m, mark? b = some m → Before m.key key)
    (he : e ∈ t.entries) : Before e.1 key := by
  obtain ⟨m, hm, hkey⟩ := Option.map_eq_some_iff.1 (h.known he)
  rw [← hkey]
  exact hlate _ m hm

lemma Laid.push (h : Laid mark? a t) (hleads : Leads mark? mark?' x)
    (hx : a ++ [.name key.name] <+: x)
    (hspan : (mark?' a).bind Mark.span = (mark? a).bind Mark.span)
    (hfind : t.find? key.name = none) (hlate : ∀ b m, mark? b = some m → Before m.key key)
    (hkey : (mark?' (a ++ [.name key.name])).map Mark.key = some key)
    (hv : LaidValue mark?' (a ++ [.name key.name]) v) : Laid mark?' a (t.push key v) := by
  refine h.replace hleads hx (h.span.trans hspan.symm) ?_ fun e he => ?_
  · refine List.pairwise_append.2 ⟨h.sorted, List.pairwise_singleton _ _, fun e he f hf => ?_⟩
    rw [List.mem_singleton.1 hf]
    exact h.before hlate he
  · rcases List.mem_append.1 he with he | he
    · refine .inl ⟨he, fun hname => ?_⟩
      exact find?_eq_none_iff.1 hfind (List.mem_map.2 ⟨e, he, hname⟩)
    · rw [List.mem_singleton.1 he]
      exact .inr ⟨rfl, hkey, hv⟩

/-- A name that is given anew moves to the end. -/
lemma Laid.renew (h : Laid mark? a t) (hleads : Leads mark? mark?' x)
    (hx : a ++ [.name key.name] <+: x)
    (hspan : (mark?' a).bind Mark.span = (mark? a).bind Mark.span)
    (hlate : ∀ b m, mark? b = some m → Before m.key key)
    (hkey : (mark?' (a ++ [.name key.name])).map Mark.key = some key)
    (hv : LaidValue mark?' (a ++ [.name key.name]) v) :
    Laid mark?' a ((t.erase key.name).push key v) := by
  refine h.replace hleads hx (h.span.trans hspan.symm) ?_ fun e he => ?_
  · refine List.pairwise_append.2
      ⟨h.sorted.filter _, List.pairwise_singleton _ _, fun e he f hf => ?_⟩
    rw [List.mem_singleton.1 hf]
    exact h.before hlate (List.mem_filter.1 he).1
  · rcases List.mem_append.1 he with he | he
    · obtain ⟨he, hne⟩ := List.mem_filter.1 he
      exact .inl ⟨he, by simpa using hne⟩
    · rw [List.mem_singleton.1 he]
      exact .inr ⟨rfl, hkey, hv⟩

lemma Laid.set (h : Laid mark? a t) (hleads : Leads mark? mark?' x) (hx : a ++ [.name n] <+: x)
    (hne : a ++ [.name n] ≠ x) (hspan : (mark?' a).bind Mark.span = (mark? a).bind Mark.span)
    (hv : LaidValue mark?' (a ++ [.name n]) v) : Laid mark?' a (t.set n v) := by
  refine h.replace hleads hx (h.span.trans hspan.symm) ?_ fun e he => ?_
  · refine List.pairwise_map.2 (h.sorted.imp fun {e f} hef => ?_)
    split <;> split <;> exact hef
  · obtain ⟨e, hold, rfl⟩ := List.mem_map.1 he
    by_cases hname : e.1.name = n
    · rw [if_pos (beq_iff_eq.2 hname)]
      obtain ⟨m, hm, hkey⟩ := Option.map_eq_some_iff.1 (h.known hold)
      rw [hname] at hm
      refine .inr ⟨hname, ?_, hv⟩
      rw [← hkey]
      exact hleads.kept _ m hne hm
    · rw [if_neg (by rwa [beq_iff_eq])]
      exact .inl ⟨hold, hname⟩

end Laid

/-! ### Marks -/

section Marks

variable {mark? mark?' mark?'' : Address → Option Mark} {l : Chart} {o : Outline} {b base x : Address}
  {m : Mark} {path : List Key} {key : Key} {span : Span} {keys : List (Address × Key)}
  {p : Address × Key} {v : Value}

lemma prefix_of_mem_along_concat {opened : List Address}
    (h : p ∈ along opened base (path ++ [key])) : p.1 <+: lead opened base path ++ [.name key.name] := by
  rw [along_append] at h
  rcases List.mem_append.1 h with h | h
  · exact (prefix_lead_of_mem_along h).trans (List.prefix_append _ _)
  · obtain rfl := List.mem_singleton.1 h
    exact List.prefix_rfl

lemma note_of_some (h : l.mark? b = some m) : (l.note keys).mark? b = some m := by
  dsimp only [Chart.note]
  rw [h, Option.some_or]

lemma note_of_not_mem (h : ∀ p ∈ keys, p.1 ≠ b) : (l.note keys).mark? b = l.mark? b := by
  have hnone : keys.lookup b = none := List.lookup_eq_none_iff.2 fun p hp => by
    simpa using (h p hp).symm
  dsimp only [Chart.note]
  rw [hnone, Option.map_none, Option.or_none]

lemma note_along (h : p ∈ along l.opened base path) (hnone : l.mark? p.1 = none) :
    (l.note (along l.opened base path)).mark? p.1 = some ⟨p.2, none⟩ := by
  dsimp only [Chart.note]
  rw [hnone, lookup_along h]
  rfl

lemma note_span : ((l.note keys).mark? b).bind Mark.span = (l.mark? b).bind Mark.span := by
  dsimp only [Chart.note]
  cases l.mark? b with
  | some m => rfl
  | none =>
    rw [Option.none_or]
    cases keys.lookup b <;> rfl

lemma extend_of_ne (h : b ≠ l.current) : (l.extend v).mark? b = l.mark? b := by
  dsimp only [Chart.extend]
  rw [if_neg h]

lemma extend_current : (l.extend v).mark? l.current = (l.mark? l.current).map (·.extend v) := by
  dsimp only [Chart.extend]
  rw [if_pos rfl]

lemma extend_key : ((l.extend v).mark? b).map Mark.key = (l.mark? b).map Mark.key := by
  by_cases hb : b = l.current
  · rw [hb, extend_current, Option.map_map]
    rfl
  · rw [extend_of_ne hb]

lemma Leads.trans (h : Leads mark? mark?' x) (h' : Leads mark?' mark?'' x) : Leads mark? mark?'' x where
  off b hb := (h'.off b hb).trans (h.off b hb)
  kept b m hb hm := by
    obtain ⟨m', hm', hkey⟩ := Option.map_eq_some_iff.1 (h.kept b m hb hm)
    rw [← hkey]
    exact h'.kept b m' hb hm'

lemma leads_note (h : ∀ p ∈ keys, p.1 <+: x) : Leads l.mark? (l.note keys).mark? x where
  off b hb := note_of_not_mem fun p hp heq => hb (heq ▸ h p hp)
  kept b m _ hm := by
    rw [note_of_some hm]
    rfl

lemma leads_extend (h : l.current <+: x) : Leads l.mark? (l.extend v).mark? x where
  off b hb := extend_of_ne fun heq => hb (heq ▸ h)
  kept b m _ hm := by
    rw [extend_key, hm]
    rfl

lemma head_of_ne (h : b ≠ o.current) : (l.head o path key span).mark? b =
    (l.note (along l.opened [] (path ++ [key]))).mark? b :=
  Function.update_of_ne h _ _

lemma head_current : (l.head o path key span).mark? o.current = some ⟨key, some span⟩ :=
  Function.update_self _ _ _

lemma head_span (h : b ≠ o.current) :
    ((l.head o path key span).mark? b).bind Mark.span = (l.mark? b).bind Mark.span := by
  rw [head_of_ne h, note_span]

lemma head_named (h : p ∈ along l.opened [] (path ++ [key])) (hne : p.1 ≠ o.current)
    (hnone : l.mark? p.1 = none) : ((l.head o path key span).mark? p.1).map Mark.key = some p.2 := by
  rw [head_of_ne hne, note_along h hnone]
  rfl

lemma leads_head (h : lead l.opened [] path ++ [.name key.name] <+: o.current) :
    Leads l.mark? (l.head o path key span).mark? o.current where
  off b hb := by
    rw [head_of_ne fun heq => hb (heq ▸ List.prefix_rfl)]
    refine note_of_not_mem fun p hp heq => hb ?_
    rw [← heq]
    exact (prefix_of_mem_along_concat hp).trans h
  kept b m hb hm := by
    rw [head_of_ne hb, note_of_some hm]
    rfl

end Marks

end MemberRelay.Proofs
