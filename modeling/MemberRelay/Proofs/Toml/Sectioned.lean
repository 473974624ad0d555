import MemberRelay.Proofs.Toml.Lines

/-!
# Sections of fields

What lines that give the fields of sections build: a table for each section, with a value for each of
its fields, whether the sections come under headers, by dotted keys or in braces.
-/

namespace MemberRelay.Proofs
open Toml

structure SectionField where
  sectionName : String
  name : String
  value : Scalar

def inSection (n : String) (ps : List (String × Scalar)) : List SectionField :=
  ps.map fun p => ⟨n, p.1, p.2⟩

/-- The pairs that fields give to a section. -/
def pairsOf (n : String) (fs : List SectionField) : List (String × Scalar) :=
  (fs.filter (·.sectionName = n)).map fun f => (f.name, f.value)

/-- The sections so far are tables of one origin, which hold just their fields. -/
structure Shows (o : Origin) (opened : List String) (fs : List SectionField) (root : Table Value) :
    Prop where
  closed : ∀ n, n ∉ opened → root.find? n = none
  there : ∀ n ∈ opened, ∃ t, root.find? n = some (.table t) ∧ t.origin = o ∧ Holds t (pairsOf n fs)
  fields : ∀ f ∈ fs, f.sectionName ∈ opened

/-- The lines give further fields, in sections of one origin, none of them twice. The first list has
the section that is open, the second one all that were opened. -/
inductive Gives (o : Origin) :
    List String → List String → List SectionField → List Line → List SectionField → Prop where
  | nil {current opened : List String} {fs : List SectionField} : Gives o current opened fs [] fs
  | header {current opened : List String} {fs fs' : List SectionField} {n : String} {ls : List Line}
      (ho : o = .header) (hn : n ∉ opened) (h : Gives o [n] (n :: opened) fs ls fs') :
      Gives o current opened fs (.header n :: ls) fs'
  | inside {opened : List String} {fs fs' : List SectionField} {n k : String} {s : Scalar}
      {ls : List Line} (ho : o = .header) (hn : n ∈ opened) (hk : ∀ v, ⟨n, k, v⟩ ∉ fs)
      (h : Gives o [n] opened (fs ++ [⟨n, k, s⟩]) ls fs') :
      Gives o [n] opened fs (.pair [k] s :: ls) fs'
  | dotted {opened : List String} {fs fs' : List SectionField} {n k : String} {s : Scalar}
      {ls : List Line} (ho : o = .dotted) (hk : ∀ v, ⟨n, k, v⟩ ∉ fs)
      (h : Gives o [] (n :: opened) (fs ++ [⟨n, k, s⟩]) ls fs') :
      Gives o [] opened fs (.pair [n, k] s :: ls) fs'
  | braces {opened : List String} {fs fs' : List SectionField} {n : String}
      {ps : List (String × Scalar)} {ls : List Line} (ho : o = .braces) (hn : n ∉ opened)
      (h : Gives o [] (n :: opened) (fs ++ inSection n ps) ls fs') :
      Gives o [] opened fs (.braces n ps :: ls) fs'

/-! ### Fields -/

section Fields

variable {n m k : String} {s : Scalar} {ps : List (String × Scalar)} {fs : List SectionField}
  {opened : List String} {o : Origin} {t root root' : Table Value}

lemma pairsOf_append :
    pairsOf m (fs ++ inSection n ps) = pairsOf m fs ++ if m = n then ps else [] := by
  rw [pairsOf, List.filter_append, List.map_append, ← pairsOf]
  congr 1
  by_cases hm : m = n
  · subst hm
    simp [inSection, List.filter_map, Function.comp_def]
  · simp [inSection, List.filter_map, Function.comp_def, hm, Ne.symm hm]

lemma not_mem_pairsOf (hk : ∀ v, ⟨n, k, v⟩ ∉ fs) : k ∉ (pairsOf n fs).map (·.1) := by
  intro hmem
  simp only [pairsOf, List.map_map, List.mem_map, List.mem_filter, decide_eq_true_eq] at hmem
  obtain ⟨f, ⟨hf, rfl⟩, rfl⟩ := hmem
  exact hk f.value hf

lemma Shows.pairsOf_nil (h : Shows o opened fs root) (hn : n ∉ opened) : pairsOf n fs = [] := by
  simp only [pairsOf, List.map_eq_nil_iff, List.filter_eq_nil_iff, decide_eq_true_eq]
  rintro f hf rfl
  exact hn (h.fields f hf)

lemma sections_append (hfs : ∀ f ∈ fs, f.sectionName ∈ opened) :
    ∀ f ∈ fs ++ inSection n ps, f.sectionName ∈ n :: opened := by
  intro f hf
  rcases List.mem_append.1 hf with hf | hf
  · exact List.mem_cons_of_mem _ (hfs f hf)
  · obtain ⟨p, -, rfl⟩ := List.mem_map.1 hf
    exact List.mem_cons_self

/-- One section is put in, or takes the place of itself with fewer fields. -/
lemma Shows.put (h : Shows o opened fs root)
    (hfind : ∀ m, root'.find? m = if m = n then some (.table t) else root.find? m)
    (ho : t.origin = o) (ht : Holds t (pairsOf n fs ++ ps)) :
    Shows o (n :: opened) (fs ++ inSection n ps) root' := by
  refine ⟨?_, ?_, ?_⟩
  · intro m hm
    rw [List.mem_cons, not_or] at hm
    rw [hfind, if_neg hm.1]
    exact h.closed m hm.2
  · intro m hm
    rw [hfind, pairsOf_append]
    by_cases hmn : m = n
    · subst hmn
      rw [if_pos rfl, if_pos rfl]
      exact ⟨t, rfl, ho, ht⟩
    · rw [if_neg hmn, if_neg hmn, List.append_nil]
      exact h.there m ((List.mem_cons.1 hm).resolve_left hmn)
  · exact sections_append h.fields

lemma Shows.of_cons (h : Shows o (n :: opened) fs root) (hn : n ∈ opened) :
    Shows o opened fs root := by
  have hiff : ∀ m, m ∈ n :: opened ↔ m ∈ opened := by
    intro m
    rw [List.mem_cons, or_iff_right_of_imp]
    rintro rfl
    exact hn
  exact ⟨fun m hm => h.closed m (mt (hiff m).1 hm), fun m hm => h.there m ((hiff m).2 hm),
    fun f hf => (hiff _).1 (h.fields f hf)⟩

lemma Shows.find? (h : Shows o opened fs root) {f : SectionField} (hf : f ∈ fs) : ∃ t span,
    root.find? f.sectionName = some (.table t) ∧ t.find? f.name = some (.scalar f.value span) := by
  obtain ⟨t, hfind, -, ht⟩ := h.there _ (h.fields f hf)
  have hmem : (f.name, f.value) ∈ pairsOf f.sectionName fs :=
    List.mem_map_of_mem (List.mem_filter.2 ⟨hf, by simp⟩)
  obtain ⟨span, hspan⟩ := ht.present _ _ hmem
  exact ⟨t, span, hfind, hspan⟩

end Fields

/-! ### Statements -/

section Statements

variable {o : Origin} {n : String} {s : Scalar} {ps : List (String × Scalar)}
  {fs fs' : List SectionField} {opened current : List String} {t root : Table Value} {key : Key}
  {d : Draft} {ls : List Line} {ss : List Statement}

lemma Shows.extend (v : Value) (h : Shows o opened fs root) : Shows o opened fs (root.extend v) := by
  have hfind : ∀ n, (root.extend v).find? n = root.find? n := by
    intro n
    rw [Table.find?, Table.find?, extend_entries]
  exact ⟨fun n hn => by rw [hfind, h.closed n hn], fun n hn => by rw [hfind]; exact h.there n hn,
    h.fields⟩

lemma Shows.push (h : Shows o opened fs root) (hn : key.name ∉ opened) (ho : t.origin = o)
    (ht : Holds t ps) : Shows o (key.name :: opened) (fs ++ inSection key.name ps)
      (root.push key (.table t)) := by
  refine h.put (fun m => find?_push_of_none (h.closed _ hn)) ho ?_
  rwa [h.pairsOf_nil hn]

lemma Shows.field (s : Scalar) (span : Span) (h : Shows o opened fs root) (hn : n ∈ opened)
    (hk : ∀ v, ⟨n, key.name, v⟩ ∉ fs) :
    ∃ t, root.find? n = some (.table t) ∧ t.origin = o ∧ t.find? key.name = none ∧
      ∀ t' : Table Value, t'.entries = t.entries → t'.origin = o →
        Shows o (n :: opened) (fs ++ [⟨n, key.name, s⟩])
          (root.set n (.table (t'.push key (.scalar s span)))) := by
  obtain ⟨t, hfind, ho, ht⟩ := h.there n hn
  have hfree := not_mem_pairsOf hk
  refine ⟨t, hfind, ho, ht.absent _ hfree, ?_⟩
  intro t' hentries ho'
  have hpush := (ht.of_entries hentries).push s span hfree
  have horigin : (t'.push key (.scalar s span)).origin = o := ho'
  exact h.put (fun m => find?_set_of_some hfind) horigin hpush

/-- A field comes into the section that a header opened last. -/
lemma Shows.inside (span : Span) (h : Shows .header opened fs root) (hn : n ∈ opened)
    (hk : ∀ v, ⟨n, key.name, v⟩ ∉ fs) {opener : Key} (hopener : opener.name = n) :
    ∃ root', root.within (fun t => (t.extend (.scalar s span)).assign [] key (.scalar s span))
        [opener] = some root' ∧
      Shows .header opened (fs ++ [⟨n, key.name, s⟩]) root' ∧ root'.origin = root.origin := by
  obtain ⟨t, hfind, ho, hfree, hset⟩ := h.field s span hn hk
  have horigin : (t.extend (.scalar s span)).origin = .header := extend_origin.trans ho
  have hassign : (t.extend (.scalar s span)).assign [] key (.scalar s span) =
      some ((t.extend (.scalar s span)).push key (.scalar s span)) := by
    apply assign_here
    · simp [horigin]
    · rwa [Table.find?, extend_entries]
  refine ⟨_, ?_, (hset _ extend_entries horigin).of_cons hn, rfl⟩
  rw [Table.within, hopener, hfind]
  simp only [Table.within, hassign, Option.map_some]

lemma Shows.dotted (span : Span) (h : Shows .dotted opened fs root) (hk : ∀ v, ⟨n, key.name, v⟩ ∉ fs)
    {opener : Key} (hopener : opener.name = n) :
    ∃ root', root.assign [opener] key (.scalar s span) = some root' ∧
      Shows .dotted (n :: opened) (fs ++ [⟨n, key.name, s⟩]) root' ∧ root'.origin = root.origin := by
  subst hopener
  by_cases hn : opener.name ∈ opened
  · obtain ⟨t, hfind, ho, hfree, hset⟩ := h.field s span hn hk
    refine ⟨_, ?_, hset t rfl ho, rfl⟩
    simp [Table.assign, Table.alter, hfind, Table.isOpen, ho, hfree]
  · have hholds : Holds ((Table.empty .dotted).push key (.scalar s span)) [(key.name, s)] :=
      holds_empty.push s span (by simp)
    refine ⟨_, ?_, h.push hn rfl hholds, rfl⟩
    have hempty : (Table.empty .dotted : Table Value).find? key.name = none := rfl
    have horigin : (Table.empty .dotted : Table Value).origin = .dotted := rfl
    simp [Table.assign, Table.alter, h.closed _ hn, hempty, horigin]

lemma Shows.header (span : Span) (h : Shows .header opened fs root) (hn : key.name ∉ opened) :
    ∃ root', root.openTable [] key span = some root' ∧
      Shows .header (key.name :: opened) fs root' ∧ root'.origin = root.origin := by
  have hempty : Holds ⟨.header, some span, []⟩ [] := ⟨fun _ _ => rfl, nofun⟩
  have hpush := h.push hn rfl hempty
  rw [inSection, List.map_nil, List.append_nil] at hpush
  refine ⟨_, ?_, hpush, rfl⟩
  simp [Table.openTable, Table.alter, h.closed _ hn]

lemma Shows.braces (h : Shows .braces opened fs root) (hroot : root.origin = .header)
    (hn : key.name ∉ opened) (ho : t.origin = .braces) (ht : Holds t ps) :
    ∃ root', (root.extend (.table t)).assign [] key (.table t) = some root' ∧
      Shows .braces (key.name :: opened) (fs ++ inSection key.name ps) root' ∧
      root'.origin = root.origin := by
  have hextended := h.extend (.table t)
  have horigin : (root.extend (.table t)).origin = .header := extend_origin.trans hroot
  refine ⟨_, assign_here ?_ (hextended.closed _ hn), hextended.push hn ho ht, extend_origin⟩
  simp [horigin]

lemma foldlM_add_cons {st : Statement} {root' : Table Value} {names : List Key}
    {P : Draft → Prop} (hadd : d.add st = some ⟨root', names⟩)
    (hrest : ∃ d', ss.foldlM Draft.add ⟨root', names⟩ = some d' ∧ P d') :
    ∃ d', (st :: ss).foldlM Draft.add d = some d' ∧ P d' := by
  obtain ⟨d', hrun, hd'⟩ := hrest
  refine ⟨d', ?_, hd'⟩
  rw [List.foldlM_cons, hadd]
  exact hrun

/-- Lines that give fields build a document with just these fields. -/
theorem Gives.build {names : List String} (h : Gives o names opened fs ls fs')
    (hss : List.Forall₂ States ls ss) (hroot : d.root.origin = .header)
    (hshows : Shows o opened fs d.root) (hcurrent : d.current.map (·.name) = names) :
    ∃ d', ss.foldlM Draft.add d = some d' ∧ ∃ opened', Shows o opened' fs' d'.root := by
  -- along the lines: the document shows the fields so far, and the open section is the last header
  induction h generalizing d ss with
  | nil =>
    cases hss
    exact ⟨d, rfl, _, hshows⟩
  | header ho hn _ ih =>
    obtain _ | ⟨hs, hss⟩ := hss
    cases hs with
    | @header _ key span hkey =>
      subst ho hkey
      obtain ⟨root', hopen, hshows', horigin⟩ := hshows.header span hn
      have hadd : d.add (.openTable [] key span) = some ⟨root', [key]⟩ := by
        rw [Draft.add, hopen]
        rfl
      exact foldlM_add_cons hadd (ih hss (horigin.trans hroot) hshows' rfl)
  | inside ho hn hk _ ih =>
    obtain _ | ⟨hs, hss⟩ := hss
    cases hs with
    | @pair _ _ a ha =>
      obtain ⟨hnames, span, hvalue⟩ := ha
      obtain ⟨hpath, hkey⟩ := eq_of_one_name hnames
      obtain ⟨opener, hopener, hcurrent'⟩ := List.map_eq_singleton_iff.1 hcurrent
      subst ho hkey
      obtain ⟨root', hwithin, hshows', horigin⟩ := hshows.inside span hn hk hcurrent'
      have hadd : d.add (.assign a) = some ⟨root', [opener]⟩ := by
        rw [Draft.add, hpath, hvalue, hopener, hwithin]
        rfl
      exact foldlM_add_cons hadd (ih hss (horigin.trans hroot) hshows' (by simp [hcurrent']))
  | dotted ho hk _ ih =>
    obtain _ | ⟨hs, hss⟩ := hss
    cases hs with
    | @pair _ _ a ha =>
      obtain ⟨hnames, span, hvalue⟩ := ha
      obtain ⟨opener, hpath, hopener, hkey⟩ := eq_of_two_names hnames
      have hnil : d.current = [] := List.map_eq_nil_iff.1 hcurrent
      subst ho hkey
      obtain ⟨root', hassign, hshows', horigin⟩ :=
        (hshows.extend (.scalar _ span)).dotted span hk hopener
      have hadd : d.add (.assign a) = some ⟨root', []⟩ := by
        rw [Draft.add, hpath, hvalue, hnil, Table.within, hassign]
        rfl
      exact foldlM_add_cons hadd
        (ih hss (horigin.trans (extend_origin.trans hroot)) hshows' rfl)
  | braces ho hn _ ih =>
    obtain _ | ⟨hs, hss⟩ := hss
    cases hs with
    | @braces _ _ key t hkey ht hholds =>
      have hnil : d.current = [] := List.map_eq_nil_iff.1 hcurrent
      subst ho hkey
      obtain ⟨root', hassign, hshows', horigin⟩ := hshows.braces hroot hn ht hholds
      have hadd : d.add (.assign ⟨[], key, .table t⟩) = some ⟨root', []⟩ := by
        rw [Draft.add, hnil, Table.within, hassign]
        rfl
      exact foldlM_add_cons hadd (ih hss (horigin.trans hroot) hshows' rfl)

end Statements

/-! ### Layouts -/

/-- Sections with different names, each with different fields. -/
structure Tidy (secs : List (String × List (String × Scalar))) : Prop where
  sections : (secs.map (·.1)).Nodup
  fields : ∀ sec ∈ secs, (sec.2.map (·.1)).Nodup

def fieldsOf (secs : List (String × List (String × Scalar))) : List SectionField :=
  secs.flatMap fun sec => inSection sec.1 sec.2

/-- Each section under its header. -/
def headed (secs : List (String × List (String × Scalar))) : List Line :=
  secs.flatMap fun sec => .header sec.1 :: sec.2.map fun p => .pair [p.1] p.2

/-- Each field by a dotted key. -/
def pointed (fs : List SectionField) : List Line :=
  fs.map fun f => .pair [f.sectionName, f.name] f.value

/-- Each section in braces. -/
def inBraces (secs : List (String × List (String × Scalar))) : List Line :=
  secs.map fun sec => .braces sec.1 sec.2

section Layouts

variable {secs : List (String × List (String × Scalar))} {ps : List (String × Scalar)}
  {fs new fs' : List SectionField} {opened current : List String} {n : String} {ls : List Line}

lemma Tidy.of_cons {sec : String × List (String × Scalar)} (h : Tidy (sec :: secs)) :
    sec.1 ∉ secs.map (·.1) ∧ (sec.2.map (·.1)).Nodup ∧ Tidy secs := by
  obtain ⟨hsections, hfields⟩ := h
  rw [List.map_cons, List.nodup_cons] at hsections
  rw [List.forall_mem_cons] at hfields
  exact ⟨hsections.1, hfields.1, hsections.2, hfields.2⟩

lemma gives_inside (hn : n ∈ opened) (hps : (ps.map (·.1)).Nodup)
    (hnew : ∀ p ∈ ps, ∀ v, ⟨n, p.1, v⟩ ∉ fs)
    (h : Gives .header [n] opened (fs ++ inSection n ps) ls fs') :
    Gives .header [n] opened fs ((ps.map fun p => .pair [p.1] p.2) ++ ls) fs' := by
  induction ps generalizing fs with
  | nil => rwa [inSection, List.map_nil, List.append_nil] at h
  | cons p ps ih =>
    rw [List.map_cons, List.nodup_cons] at hps
    rw [List.forall_mem_cons] at hnew
    refine .inside rfl hn hnew.1 (ih hps.2 ?_ ?_)
    · intro q hq v hv
      rcases List.mem_append.1 hv with hv | hv
      · exact hnew.2 q hq v hv
      · obtain ⟨-, hname, -⟩ := SectionField.mk.inj (List.mem_singleton.1 hv)
        exact hps.1 (List.mem_map.2 ⟨q, hq, hname⟩)
    · rwa [List.append_assoc]

lemma not_mem_cons_of_new (hn : n ∉ secs.map (·.1)) (hnew : ∀ sec ∈ secs, sec.1 ∉ opened) :
    ∀ sec ∈ secs, sec.1 ∉ n :: opened := by
  intro sec hsec hmem
  rcases List.mem_cons.1 hmem with heq | hold
  · exact hn (heq ▸ List.mem_map_of_mem hsec)
  · exact hnew sec hsec hold

lemma not_mem_of_section {k : String} (hfs : ∀ f ∈ fs, f.sectionName ∈ opened) (hn : n ∉ opened)
    (v : Scalar) : ⟨n, k, v⟩ ∉ fs :=
  fun hmem => hn (hfs _ hmem)

lemma gives_headed (hsecs : Tidy secs) (hnew : ∀ sec ∈ secs, sec.1 ∉ opened)
    (hfs : ∀ f ∈ fs, f.sectionName ∈ opened) :
    Gives .header current opened fs (headed secs) (fs ++ fieldsOf secs) := by
  induction secs generalizing current opened fs with
  | nil =>
    rw [fieldsOf, List.flatMap_nil, List.append_nil]
    exact .nil
  | cons sec secs ih =>
    obtain ⟨hsec, hfields, htidy⟩ := hsecs.of_cons
    rw [List.forall_mem_cons] at hnew
    rw [headed, List.flatMap_cons, List.cons_append]
    refine .header rfl hnew.1 (gives_inside List.mem_cons_self hfields ?_ ?_)
    · exact fun p _ v => not_mem_of_section hfs hnew.1 v
    · rw [fieldsOf, List.flatMap_cons, ← List.append_assoc]
      exact ih htidy (not_mem_cons_of_new hsec hnew.2) (sections_append hfs)

lemma gives_inBraces (hsecs : Tidy secs) (hnew : ∀ sec ∈ secs, sec.1 ∉ opened) :
    Gives .braces [] opened fs (inBraces secs) (fs ++ fieldsOf secs) := by
  induction secs generalizing opened fs with
  | nil =>
    rw [fieldsOf, List.flatMap_nil, List.append_nil]
    exact .nil
  | cons sec secs ih =>
    obtain ⟨hsec, -, htidy⟩ := hsecs.of_cons
    rw [List.forall_mem_cons] at hnew
    rw [inBraces, List.map_cons, fieldsOf, List.flatMap_cons, ← List.append_assoc]
    exact .braces rfl hnew.1 (ih htidy (not_mem_cons_of_new hsec hnew.2))

lemma gives_pointed (hnodup : ((fs ++ new).map fun f => (f.sectionName, f.name)).Nodup) :
    Gives .dotted [] opened fs (pointed new) (fs ++ new) := by
  induction new generalizing opened fs with
  | nil =>
    rw [List.append_nil]
    exact .nil
  | cons f new ih =>
    have happend : fs ++ f :: new = fs ++ [f] ++ new := by simp
    refine .dotted rfl ?_ ?_
    · intro v hv
      rw [List.map_append, List.nodup_append] at hnodup
      exact hnodup.2.2 _ (List.mem_map_of_mem hv) _ List.mem_cons_self rfl
    · rw [happend] at hnodup ⊢
      exact ih hnodup

end Layouts

end MemberRelay.Proofs
