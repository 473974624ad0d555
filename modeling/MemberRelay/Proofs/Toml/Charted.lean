import MemberRelay.Proofs.Toml.Chart

/-!
# What a statement does to a chart

A statement changes the table of a document on the way to one address, and the chart on the same way.
A table that kept to its chart before keeps to it after the statement.
-/

namespace MemberRelay.Proofs
open Toml

/-- A table keeps to its marks, and what is marked or counted below it is there. -/
structure Charted (opened : List Address) (mark? : Address → Option Mark) (a : Address)
    (t : Table Value) : Prop where
  laid : Laid mark? a t
  marked : ∀ c, c ≠ [] → valueAt? c (.table t) = none → mark? (a ++ c) = none
  counted : Counted opened a (.table t)

/-- A path leads on the way to an address, and nothing on that path has its header extended. -/
structure Guides (opened : List Address) (mark? mark?' : Address → Option Mark) (base : Address)
    (path : List Key) (x : Address) : Prop extends Leads mark? mark?' x where
  way : ∃ n, lead opened base path ++ [.name n] <+: x
  spans : ∀ b, b <+: lead opened base path → b ≠ lead opened base path →
    (mark?' b).bind Mark.span = (mark? b).bind Mark.span

/-! ### Changes at the end of a path -/

section Changes

variable {opened : List Address} {mark? mark?' : Address → Option Mark} {a base c d x : Address}
  {path : List Key} {key : Key} {t t' child : Table Value} {ts : List (Table Value)}
  {change : Table Value → Option (Table Value)}

lemma Charted.part (h : Charted opened mark? a t) (hpart : Part c (.table t) child)
    (hlaid : Laid mark? (a ++ c) child) : Charted opened mark? (a ++ c) child where
  laid := hlaid
  marked d hd hnone := by
    rw [List.append_assoc]
    refine h.marked (c ++ d) (List.append_ne_nil_of_right_ne_nil c hd) ?_
    rwa [hpart.below d hd]
  counted := h.counted.part hpart

lemma ne_of_way {b : Address} {s : Selector} (hx : a ++ [s] <+: x) (hb : b <+: a) : b ≠ x := by
  rintro rfl
  have hle := (hx.trans hb).length_le
  rw [List.length_append, List.length_singleton] at hle
  omega

lemma Guides.next (h : Guides opened mark? mark?' base (key :: path) x) :
    Guides opened mark? mark?' (lastOf opened (base ++ [.name key.name])) path x :=
  ⟨h.toLeads, h.way, h.spans⟩

lemma Guides.name (h : Guides opened mark? mark?' base (key :: path) x) :
    base ++ [.name key.name] <+: x ∧ base ++ [.name key.name] ≠ x := by
  obtain ⟨n, hn⟩ := h.way
  have hway : base ++ [.name key.name] <+: lead opened base (key :: path) :=
    prefix_lastOf.trans prefix_lead
  exact ⟨(hway.trans (List.prefix_append _ _)).trans hn, ne_of_way hn hway⟩

lemma Guides.span (h : Guides opened mark? mark?' base (key :: path) x) :
    (mark?' base).bind Mark.span = (mark? base).bind Mark.span := by
  have hway : base ++ [.name key.name] <+: lead opened base (key :: path) :=
    prefix_lastOf.trans prefix_lead
  exact h.spans base ((List.prefix_append _ _).trans hway) (ne_of_way hway List.prefix_rfl)

lemma laidValue_concat (h : ∀ i child, ts[i]? = some child → Laid mark? (a ++ [.index i]) child)
    (hleads : Leads mark? mark?' x) (hx : a ++ [.index ts.length] <+: x)
    (hchild : Laid mark?' (a ++ [.index ts.length]) child) :
    LaidValue mark?' a (.tables (ts ++ [child])) where
  full heq := absurd (Value.tables.inj heq) (List.append_ne_nil_of_right_ne_nil ts (by simp))
  table _ hother := nomatch hother
  tables ts' hts i u hu := by
    rw [← Value.tables.inj hts] at hu
    rcases Nat.lt_trichotomy i ts.length with hlt | rfl | hgt
    · rw [List.getElem?_append_left hlt] at hu
      refine (h i u hu).congr fun b hb => hleads.off b fun hbx => ?_
      have hsame := List.prefix_of_prefix_length_le (hb.trans hbx) hx (by simp)
      have heq := hsame.eq_of_length (by simp)
      have hindex : i = ts.length := by simpa using heq
      omega
    · rw [List.getElem?_concat_length] at hu
      cases hu
      exact hchild
    · rw [List.getElem?_eq_none (by simp; omega)] at hu
      cases hu

/-- The table that a name leads to, which may be new. -/
lemma Charted.lastOf_name (h : Charted opened mark? base t)
    (hpart : Part [.name key.name] (.table t) child) :
    lastOf opened (base ++ [.name key.name]) = base ++ [.name key.name] := by
  refine lastOf_of_zero ?_
  rw [h.counted]
  exact (hpart.passed child rfl).elements.symm

/-- The last of the tables that a name leads to. -/
lemma Charted.lastOf_last (h : Charted opened mark? base t)
    (hfind : t.find? key.name = some (.tables ts)) (hlast : ts.getLast? = some child) :
    lastOf opened (base ++ [.name key.name]) = base ++ [.name key.name] ++ [.index (ts.length - 1)] := by
  have hpos := List.length_pos_iff.2 (List.ne_nil_of_mem (List.mem_of_getLast? hlast))
  refine lastOf_of_succ ?_
  rw [h.counted, valueAt?_name, hfind, elements]
  omega

lemma Charted.laid_last (h : Charted opened mark? base t)
    (hfind : t.find? key.name = some (.tables ts)) (hlast : ts.getLast? = some child) :
    Laid mark? (base ++ [.name key.name] ++ [.index (ts.length - 1)]) child := by
  obtain ⟨e, he, hname, hts⟩ := find?_eq_some hfind
  rw [← hname]
  exact (h.laid.value he).tables ts hts _ child (by rwa [← List.getLast?_eq_getElem?])

/-- A table on the way keeps to the new marks if the one that it leads to does. -/
lemma Charted.setTable {child' : Table Value} (h : Charted opened mark? base t)
    (hguides : Guides opened mark? mark?' base (key :: path) x)
    (hchild : Laid mark?' (base ++ [.name key.name]) child') :
    Laid mark?' base (t.set key.name (.table child')) :=
  h.laid.set hguides.toLeads hguides.name.1 hguides.name.2 hguides.span (laidValue_table hchild)

lemma Charted.setLast {child' : Table Value} (h : Charted opened mark? base t)
    (hguides : Guides opened mark? mark?' base (key :: path) x)
    (hfind : t.find? key.name = some (.tables ts)) (hlast : ts.getLast? = some child)
    (hchild : Laid mark?' (base ++ [.name key.name] ++ [.index (ts.length - 1)]) child') :
    Laid mark?' base (t.set key.name (.tables (ts.dropLast ++ [child']))) := by
  have hx : base ++ [.name key.name] ++ [.index (ts.length - 1)] <+: x := by
    obtain ⟨n, hn⟩ := hguides.way
    rw [lead, h.lastOf_last hfind hlast] at hn
    exact (prefix_lead.trans (List.prefix_append _ _)).trans hn
  obtain ⟨e, he, hname, hts⟩ := find?_eq_some hfind
  have hvalue := h.laid.value he
  rw [hname] at hvalue
  obtain ⟨ds, rfl⟩ := List.getLast?_eq_some_iff.1 hlast
  rw [List.length_append, List.length_singleton, Nat.add_sub_cancel] at hx hchild
  rw [List.dropLast_concat]
  refine h.laid.set hguides.toLeads hguides.name.1 hguides.name.2 hguides.span ?_
  refine laidValue_concat (fun i u hu => ?_) hguides.toLeads hx hchild
  exact hvalue.tables _ hts i u (by rw [List.getElem?_append_left (List.getElem?_eq_some_iff.1 hu).1, hu])

/-- A change at the end of a path that makes missing tables. -/
lemma alter_laid {dotted : Bool} (hguides : Guides opened mark? mark?' base path x)
    (hnamed : ∀ p ∈ along opened base path, mark? p.1 = none →
      (mark?' p.1).map Mark.key = some p.2)
    (hlate : ∀ k ∈ path, ∀ b m, mark? b = some m → Before m.key k)
    (hchange : ∀ u u', Charted opened mark? (lead opened base path) u → change u = some u' →
      Laid mark?' (lead opened base path) u')
    (h : Charted opened mark? base t) (halter : Table.alter dotted change path t = some t') :
    Laid mark?' base t' := by
  induction path generalizing base t t' with
  | nil => exact hchange t t' h halter
  | cons key path ih =>
    have hguidesNext := hguides.next
    have hnext : ∀ {b child child'}, lastOf opened (base ++ [.name key.name]) = b →
        Charted opened mark? b child → Table.alter dotted change path child = some child' →
        Laid mark?' b child' := by
      rintro b child child' rfl hchild halter
      exact ih hguidesNext (fun p hp => hnamed p (List.mem_cons_of_mem _ hp))
        (fun k hk => hlate k (List.mem_cons_of_mem _ hk)) hchange hchild halter
    rw [Table.alter] at halter
    split at halter
    · next hfind =>
      obtain ⟨child', hchild, rfl⟩ := Option.map_eq_some_iff.1 halter
      have hmissing : valueAt? [.name key.name] (.table t) = none := valueAt?_name.trans hfind
      have hmark : mark? (base ++ [.name key.name]) = none := h.marked _ (by simp) hmissing
      have hpart : Part [.name key.name] (.table t)
          (Table.empty (if dotted then .dotted else .passing)) :=
        part_of_none hmissing (by cases dotted <;> decide)
      have hchild' := hnext (h.lastOf_name hpart) (h.part hpart (laid_empty hmark)) hchild
      exact h.laid.push hguides.toLeads hguides.name.1 hguides.span hfind
        (hlate key List.mem_cons_self) (hnamed _ List.mem_cons_self hmark) (laidValue_table hchild')
    · next child hfind =>
      split at halter
      · next hopen =>
        obtain ⟨child', hchild, rfl⟩ := Option.map_eq_some_iff.1 halter
        have hpart := child_part hfind
        obtain ⟨e, he, hname, hvalue⟩ := find?_eq_some hfind
        have hlaid := (h.laid.value he).table child hvalue (not_isClosed_of_isOpen hopen)
        rw [hname] at hlaid
        exact h.setTable hguides (hnext (h.lastOf_name hpart) (h.part hpart hlaid) hchild)
      · cases halter
    · next ts hfind =>
      split at halter
      · next child hlast =>
        obtain ⟨child', hchild, rfl⟩ := Option.map_eq_some_iff.1 halter
        have hlaid := h.laid_last hfind hlast
        rw [List.append_assoc] at hlaid
        have hcharted := h.part (last_part hfind hlast) hlaid
        rw [← List.append_assoc] at hcharted
        exact h.setLast hguides hfind hlast (hnext (h.lastOf_last hfind hlast) hcharted hchild)
      · cases halter
    · cases halter

lemma OpenAlong.part (h : OpenAlong (c ++ d) (.table t)) (hpart : Part c (.table t) child) :
    OpenAlong d (.table child) := by
  intro e n w he hw
  refine h (c ++ e) n w ?_ ?_
  · rw [List.append_assoc, List.prefix_append_right_inj]
    exact he
  · rwa [List.append_assoc, hpart.below _ (List.append_ne_nil_of_right_ne_nil e (by simp))]

/-- A change of the table that is open now. -/
lemma within_laid (hguides : Guides opened mark? mark?' base path x)
    (hlead : lead opened base path = base ++ d) (hopen : OpenAlong d (.table t))
    (hchange : ∀ u u', Charted opened mark? (lead opened base path) u → change u = some u' →
      Laid mark?' (lead opened base path) u')
    (h : Charted opened mark? base t) (hwithin : Table.within change path t = some t') :
    Laid mark?' base t' := by
  induction path generalizing base t t' d with
  | nil => exact hchange t t' h hwithin
  | cons key path ih =>
    have hguidesNext := hguides.next
    have hnext : ∀ {c child child'}, lastOf opened (base ++ [.name key.name]) = base ++ c →
        Part c (.table t) child → Laid mark? (base ++ c) child →
        Table.within change path child = some child' → Laid mark?' (base ++ c) child' := by
      intro c child child' hlast hpart hlaid hwithin
      rw [lead, hlast] at hlead hchange
      rw [hlast] at hguidesNext
      have hway : base ++ c <+: base ++ d := by
        rw [← hlead]
        exact prefix_lead
      obtain ⟨d', rfl⟩ := (List.prefix_append_right_inj base).1 hway
      rw [← List.append_assoc] at hlead
      exact ih hguidesNext hlead (hopen.part hpart) hchange (h.part hpart hlaid) hwithin
    rw [Table.within] at hwithin
    split at hwithin
    · next child hfind =>
      obtain ⟨child', hchild, rfl⟩ := Option.map_eq_some_iff.1 hwithin
      have hpart := child_part hfind
      have hway : [.name key.name] <+: d := by
        have hprefix : base ++ [.name key.name] <+: base ++ d := by
          rw [← hlead]
          exact prefix_lastOf.trans prefix_lead
        exact (List.prefix_append_right_inj base).1 hprefix
      obtain ⟨e, he, hname, hvalue⟩ := find?_eq_some hfind
      have hlaid := (h.laid.value he).table child hvalue
        (hopen [] key.name _ hway (valueAt?_name.trans hfind))
      rw [hname] at hlaid
      exact h.setTable hguides (hnext (h.lastOf_name hpart) hpart hlaid hchild)
    · next ts hfind =>
      obtain ⟨child, hlast, hmap⟩ := Option.bind_eq_some_iff.1 hwithin
      obtain ⟨child', hchild, rfl⟩ := Option.map_eq_some_iff.1 hmap
      have hlaid := h.laid_last hfind hlast
      have hindex := h.lastOf_last hfind hlast
      rw [List.append_assoc] at hlaid hindex
      have hchild' := hnext hindex (last_part hfind hlast) hlaid hchild
      rw [← List.append_assoc] at hchild'
      exact h.setLast hguides hfind hlast hchild'
    · cases hwithin

end Changes

/-! ### Statements and marks -/

section Statements

variable {l : Chart} {x : Address} {path : List Key} {key : Key} {span : Span} {v : Value}
  {u u' root root' : Table Value}

/-- The marks of some addresses have keys that stand before some others. -/
def Earlier (l : Chart) (keys : List Key) : Prop :=
  ∀ k ∈ keys, ∀ b m, l.mark? b = some m → Before m.key k

lemma extend_span : (u.extend v).span = u.span.map (reach · v) := by
  unfold Table.extend
  split
  · next hspan hv => simp [hspan, hv, reach]
  · next hnone =>
    cases hspan : u.span with
    | none => rfl
    | some s =>
      cases hv : v.span? with
      | none => simp [hv, reach]
      | some w => exact absurd hv (hnone s w hspan)

lemma Charted.extend (h : Charted l.opened l.mark? l.current u) :
    Charted l.opened (l.extend v).mark? l.current (u.extend v) where
  laid := by
    refine h.laid.reheaded (fun b _ hb => extend_of_ne hb) ?_ extend_entries
    rw [extend_current, extend_span, h.laid.span]
    cases l.mark? l.current <;> rfl
  marked c hc hnone := by
    rw [valueAt?_congr extend_entries hc] at hnone
    rw [extend_of_ne (by simpa using hc)]
    exact h.marked c hc hnone
  counted := by
    have hpart : Part [] (.table u) (u.extend v) := (part_of_some rfl).congr extend_entries extend_origin
    have hcounted := h.counted.part hpart
    rwa [List.append_nil] at hcounted

/-- An assignment in the table that is open. -/
lemma assign_laid (hclosed : IsClosed v) (hlate : Earlier l (path ++ [key]))
    (h : Charted l.opened l.mark? l.current u) (hassign : (u.extend v).assign path key v = some u') :
    Laid (l.add (.assign ⟨path, key, v⟩)).mark? l.current u' := by
  have hlate' : Earlier (l.extend v) (path ++ [key]) := by
    intro k hk b m hm
    obtain ⟨m', hm', hkey⟩ := Option.map_eq_some_iff.1
      ((extend_key (v := v)).symm.trans (by rw [hm, Option.map_some]))
    rw [← hkey]
    exact hlate k hk b m' hm'
  have hguides : Guides l.opened (l.extend v).mark? (l.add (.assign ⟨path, key, v⟩)).mark? l.current
      path (lead l.opened l.current path ++ [.name key.name]) :=
    ⟨leads_note fun p hp => prefix_of_mem_along_concat hp, ⟨key.name, List.prefix_rfl⟩,
      fun b _ _ => note_span⟩
  refine alter_laid hguides ?_ ?_ ?_ h.extend hassign
  · intro p hp hnone
    exact congrArg (Option.map Mark.key) (note_along (l := l.extend v) (mem_along_concat hp) hnone)
  · exact fun k hk => hlate' k (List.mem_append_left _ hk)
  · intro w w' hw hchange
    split at hchange
    · cases hchange
    · split at hchange
      · cases hchange
      · next hnone =>
        cases hchange
        have hfind := Option.not_isSome_iff_eq_none.1 hnone
        have hmark := hw.marked [.name key.name] (by simp) (valueAt?_name.trans hfind)
        refine hw.laid.push hguides.toLeads List.prefix_rfl note_span hfind
          (hlate' key (by simp)) ?_ (laidValue_of_closed hclosed)
        exact congrArg (Option.map Mark.key) (note_along (l := l.extend v) last_mem_along hmark)

variable {o : Outline}

lemma head_guides (hx : lead l.opened [] path ++ [.name key.name] <+: o.current) :
    Guides l.opened l.mark? (l.head o path key span).mark? [] path o.current where
  toLeads := leads_head hx
  way := ⟨key.name, hx⟩
  spans _ hb _ := head_span (ne_of_way hx hb)

/-- A header keeps to its marks if it does so at the end of its path. -/
lemma head_laid {change : Table Value → Option (Table Value)}
    (hx : lead l.opened [] path ++ [.name key.name] <+: o.current) (hlate : Earlier l (path ++ [key]))
    (hchange : ∀ u u', Charted l.opened l.mark? (lead l.opened [] path) u → change u = some u' →
      Laid (l.head o path key span).mark? (lead l.opened [] path) u')
    (h : Charted l.opened l.mark? [] root) (halter : Table.alter false change path root = some root') :
    Laid (l.head o path key span).mark? [] root' := by
  refine alter_laid (head_guides hx) (fun p hp hnone => ?_) (fun k hk => ?_) hchange h halter
  · exact head_named (mem_along_concat hp) (ne_of_way hx (prefix_lead_of_mem_along hp)) hnone
  · exact hlate k (List.mem_append_left _ hk)

lemma laid_header {mark? : Address → Option Mark} {a : Address}
    (h : (mark? a).bind Mark.span = some span) : Laid mark? a ⟨.header, some span, []⟩ :=
  laid_of_values h.symm (fun _ he => absurd he List.not_mem_nil) .nil
    fun _ he => absurd he List.not_mem_nil

lemma openTable_laid (hlate : Earlier l (path ++ [key])) (h : Charted l.opened l.mark? [] root)
    (hopen : root.openTable path key span = some root') :
    Laid (l.add (.openTable path key span)).mark? [] root' := by
  have hx : lead l.opened [] path ++ [.name key.name] <+: (l.openTable path key).current :=
    List.prefix_rfl
  have hleads : Leads l.mark? (l.head (l.openTable path key) path key span).mark? _ := leads_head hx
  have hspan : ((l.head (l.openTable path key) path key span).mark?
      (lead l.opened [] path)).bind Mark.span = (l.mark? (lead l.opened [] path)).bind Mark.span :=
    head_span (ne_of_way hx List.prefix_rfl)
  have hmark : (l.head (l.openTable path key) path key span).mark?
      (lead l.opened [] path ++ [.name key.name]) = some ⟨key, some span⟩ := head_current
  refine head_laid hx hlate (fun u u' hu hchange => ?_) h hopen
  split at hchange
  · next hfind =>
    cases hchange
    refine hu.laid.push hleads hx hspan hfind (hlate key (by simp)) (by rw [hmark]; rfl) ?_
    exact laidValue_table (laid_header (by rw [hmark]; rfl))
  · next child hfind =>
    split at hchange
    · next hpassing =>
      cases hchange
      obtain ⟨e, he, hname, hvalue⟩ := find?_eq_some hfind
      have hchild := (hu.laid.value he).table child hvalue (by rw [hpassing]; decide)
      rw [hname] at hchild
      refine hu.laid.renew hleads hx hspan (hlate key (by simp)) (by rw [hmark]; rfl)
        (laidValue_table ?_)
      refine hchild.reheaded (fun b hb hne => hleads.off b fun hbx => hne ?_) (by rw [hmark]; rfl) rfl
      exact hbx.eq_of_length (Nat.le_antisymm hbx.length_le hb.length_le)
    · cases hchange
  · cases hchange

lemma openElement_laid (hlate : Earlier l (path ++ [key])) (h : Charted l.opened l.mark? [] root)
    (hopen : root.openElement path key span = some root') :
    Laid (l.add (.openElement path key span)).mark? [] root' := by
  have hx : lead l.opened [] path ++ [.name key.name] <+: (l.openElement path key).current :=
    List.prefix_append _ _
  have hleads : Leads l.mark? (l.head (l.openElement path key) path key span).mark? _ := leads_head hx
  have hspan : ((l.head (l.openElement path key) path key span).mark?
      (lead l.opened [] path)).bind Mark.span = (l.mark? (lead l.opened [] path)).bind Mark.span :=
    head_span (ne_of_way hx List.prefix_rfl)
  have hne : lead l.opened [] path ++ [.name key.name] ≠ (l.openElement path key).current :=
    ne_of_way List.prefix_rfl List.prefix_rfl
  have hnew : Laid (l.head (l.openElement path key) path key span).mark?
      (l.openElement path key).current ⟨.header, some span, []⟩ :=
    laid_header (by rw [head_current]; rfl)
  -- the new table stands after those that were counted
  have hindex : ∀ n, l.opened.count (lead l.opened [] path ++ [.name key.name]) = n →
      (l.openElement path key).current = lead l.opened [] path ++ [.name key.name] ++ [.index n] := by
    rintro n rfl
    rfl
  refine head_laid hx hlate (fun u u' hu hchange => ?_) h hopen
  split at hchange
  · next hfind =>
    cases hchange
    have hmissing : valueAt? [.name key.name] (.table u) = none := valueAt?_name.trans hfind
    have hcount := hu.counted [.name key.name]
    rw [hmissing] at hcount
    have hkey : ((l.head (l.openElement path key) path key span).mark?
        (lead l.opened [] path ++ [.name key.name])).map Mark.key = some key :=
      head_named last_mem_along hne (hu.marked _ (by simp) hmissing)
    rw [hindex 0 hcount] at hnew
    refine hu.laid.push hleads hx hspan hfind (hlate key (by simp)) hkey ?_
    have hempty : ∀ (i : Nat) child, ([] : List (Table Value))[i]? = some child →
        Laid l.mark? (lead l.opened [] path ++ [.name key.name] ++ [.index i]) child := by simp
    exact laidValue_concat hempty hleads (by rw [hindex 0 hcount]; exact List.prefix_rfl) hnew
  · next ts hfind =>
    cases hchange
    have hcount := hu.counted [.name key.name]
    rw [valueAt?_name, hfind] at hcount
    obtain ⟨e, he, hname, hvalue⟩ := find?_eq_some hfind
    have htables := (hu.laid.value he).tables ts hvalue
    rw [hname] at htables
    rw [hindex _ hcount] at hnew
    refine hu.laid.set hleads hx hne hspan ?_
    exact laidValue_concat htables hleads (by rw [hindex _ hcount]; exact List.prefix_rfl) hnew
  · cases hchange

end Statements

end MemberRelay.Proofs
