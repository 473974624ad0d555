import MemberRelay.Proofs.Toml.Kept

/-!
# Where values are found

The piece of a text where the value of an address is found. A closed value is found where it is
written, and so is an item of an array. What headers and dotted keys made is found by a chart: that of
the document, or that of the braces around it. The keys of a chart also give the order of the values.
-/

namespace MemberRelay.Proofs
open Toml

/-- The text of an item of an array, after the bracket of the array. -/
inductive ItemText : List Char → Nat → List Char → Prop where
  | here {cs : List Char} : ItemText cs 0 (skipFiller false cs)
  | next {cs stop next text : List Char} {v : Value} {i : Nat}
      (h : value? (depthLimit - 2) (skipFiller false cs) = some (v, stop))
      (hcomma : skipFiller false stop = ',' :: next) (hnext : ItemText next i text) :
      ItemText cs (i + 1) text

/-- The chart that tells of what is below an address: of the document, or of a table in braces. -/
inductive ChartAt (c : Chart) (es : List Entry) : Address → Chart → Prop where
  | document : ChartAt c es [] c
  | braces {a : Address} {inner rest : List Char} {as : List Assignment} (h : (a, '\x7b' :: inner) ∈ es)
      (has : braced? (value? (depthLimit - 2)) inner = some (as, rest)) :
      ChartAt c es a (chart (as.map .assign))

/-- The key that an address is known by, if nothing above it is closed but what the chart is of. -/
inductive KnownBy (c : Chart) (es : List Entry) : Address → Key → Prop where
  | intro {a b : Address} {k : Chart} {m : Mark} (h : ChartAt c es a k)
      (hopen : ∀ e ∈ es, e.1 <+: a ++ b → e.1 <+: a ∨ e.1 = a ++ b) (hm : k.mark? b = some m) :
      KnownBy c es (a ++ b) m.key

/-- Where the value of an address is found. -/
inductive Located (c : Chart) (es : List Entry) : Address → Span → Prop where
  | value {a : Address} {text rest : List Char} {v : Value} (h : (a, text) ∈ es)
      (hv : value? (depthLimit - 1) text = some (v, rest)) : Located c es a ⟨text, rest⟩
  | item {a : Address} {i : Nat} {inner text rest : List Char} {v : Value}
      (h : (a, '[' :: inner) ∈ es) (hi : ItemText inner i text)
      (hv : value? (depthLimit - 2) text = some (v, rest)) :
      Located c es (a ++ [.index i]) ⟨text, rest⟩
  | table {a b : Address} {k : Chart} {span : Span} (h : ChartAt c es a k)
      (hopen : ∀ e ∈ es, e.1 <+: a ++ b → e.1 <+: a) (hspan : k.source? b = some span) :
      Located c es (a ++ b) span

/-- The order of addresses: what is below an address comes after it, names come in the order of their
keys, and items in their own order. -/
inductive Precedes (c : Chart) (es : List Entry) : Address → Address → Prop where
  | above {a b : Address} {s : Selector} : Precedes c es a (a ++ s :: b)
  | named {a b b' : Address} {n n' : String} {key key' : Key} (h : KnownBy c es (a ++ [.name n]) key)
      (h' : KnownBy c es (a ++ [.name n']) key') (hbefore : Before key key') :
      Precedes c es (a ++ .name n :: b) (a ++ .name n' :: b')
  | indexed {a b b' : Address} {i j : Nat} (h : i < j) :
      Precedes c es (a ++ .index i :: b) (a ++ .index j :: b')

/-! ### Texts of values -/

section Texts

variable {p : Phrase} {o : Outline} {c : Char} {cs text rest : List Char} {es : List Entry}
  {hs : List Address} {i : Nat}

lemma suffix_of_skipBlanks (h : skipBlanks cs = c :: rest) : rest <:+ cs := by
  have hblanks : skipBlanks cs <:+ cs := List.dropWhile_suffix _
  rw [h] at hblanks
  exact (List.suffix_cons c rest).trans hblanks

lemma suffix_of_skipFiller (h : skipFiller false cs = c :: rest) : rest <:+ cs := by
  have hfiller := skipFiller_suffix false cs
  rw [h] at hfiller
  exact (List.suffix_cons c rest).trans hfiller

lemma suffix_of_mem_assigned {a : Address} {e : Entry} (he : e ∈ assigned a text es)
    (hes : ∀ e ∈ es, e.2 <:+ text) : e.2 <:+ text := by
  rcases List.mem_cons.1 he with rfl | he
  · exact List.suffix_rfl
  · obtain ⟨i, hi, rfl⟩ := mem_below he
    exact hes i hi

/-- What is after the mark of a key. -/
lemma suffix_of_key? {path : List Key} {key : Key} (h : key? cs = some ((path, key), c :: rest)) :
    skipBlanks rest <:+ cs := by
  have hblanks : skipBlanks rest <:+ rest := List.dropWhile_suffix _
  exact (suffix_cons_of hblanks).trans (key?_within h).suffix

/-- All values of a text are written in it. -/
lemma Writes.suffix (h : Writes p cs es rest) : rest <:+ cs ∧ ∀ e ∈ es, e.2 <:+ cs := by
  induction h with
  | scalar h => exact ⟨scalar?_suffix _ _ _ h, List.forall_mem_nil _⟩
  | array _ ih => exact ⟨suffix_cons_of ih.1, fun e he => suffix_cons_of (ih.2 e he)⟩
  | noPair h =>
    exact ⟨suffix_cons_of (suffix_of_skipBlanks h), List.forall_mem_nil _⟩
  | braces _ ih => exact ⟨suffix_cons_of ih.1, fun e he => suffix_cons_of (ih.2 e he)⟩
  | noItem h => exact ⟨suffix_of_skipFiller h, List.forall_mem_nil _⟩
  | @item i cs stop rest es es' _ _ ih ihafter =>
    have hfiller := skipFiller_suffix false cs
    have hstop := ih.1.trans hfiller
    refine ⟨ihafter.1.trans hstop, List.forall_mem_append.2 ⟨fun e he => ?_, fun e he => ?_⟩⟩
    · obtain ⟨e', he', rfl⟩ := mem_below he
      exact (ih.2 e' he').trans hfiller
    · exact (ihafter.2 e he).trans hstop
  | lastItem h => exact ⟨suffix_of_skipFiller h, List.forall_mem_nil _⟩
  | nextItem h _ ih =>
    have hnext := suffix_of_skipFiller h
    exact ⟨ih.1.trans hnext, fun e he => (ih.2 e he).trans hnext⟩
  | pair hkey _ _ ih ihafter =>
    have htext := suffix_of_key? hkey
    have hstop := ih.1.trans htext
    refine ⟨ihafter.1.trans hstop, List.forall_mem_append.2 ⟨fun e he => ?_, fun e he => ?_⟩⟩
    · exact (suffix_of_mem_assigned he ih.2).trans htext
    · exact (ihafter.2 e he).trans hstop
  | lastPair h => exact ⟨suffix_of_skipBlanks h, List.forall_mem_nil _⟩
  | nextPair h _ ih =>
    have hnext := suffix_of_skipBlanks h
    exact ⟨ih.1.trans hnext, fun e he => (ih.2 e he).trans hnext⟩

lemma Lists.suffix (h : Lists o cs es hs) : ∀ e ∈ es, e.2 <:+ cs := by
  induction h with
  | done => exact List.forall_mem_nil _
  | skip _ hend _ ih => exact fun e he => (ih e he).trans (endOfLine?_suffix hend)
  | table h hkey hend _ ih =>
    have hstop := (key?_within hkey).suffix.trans (suffix_of_skipBlanks h)
    exact fun e he =>
      ((ih e he).trans (endOfLine?_suffix hend)).trans ((List.suffix_cons _ _).trans hstop)
  | element h hkey hend _ ih =>
    have hinner := (List.suffix_cons _ _).trans (suffix_of_skipBlanks h)
    have hstop := (key?_within hkey).suffix.trans hinner
    exact fun e he =>
      ((ih e he).trans (endOfLine?_suffix hend)).trans ((List.suffix_append [_, _] _).trans hstop)
  | @assign o cs after stop next path key inner es hs hkey hvalue hend _ ih =>
    have htext : skipBlanks after <:+ cs := (suffix_of_key? hkey).trans (List.dropWhile_suffix _)
    refine List.forall_mem_append.2 ⟨fun e he => ?_, fun e he => ?_⟩
    · exact (suffix_of_mem_assigned he hvalue.suffix.2).trans htext
    · exact ((ih e he).trans (endOfLine?_suffix hend)).trans (hvalue.suffix.1.trans htext)

lemma withoutMark_suffix (cs : List Char) : withoutMark cs <:+ cs := by
  unfold withoutMark
  split
  · exact List.suffix_cons _ _
  · exact List.suffix_rfl

lemma ItemText.suffix (h : ItemText cs i text) : text <:+ cs := by
  induction h with
  | here => exact skipFiller_suffix false _
  | next h hcomma _ ih =>
    have hstop := (value?_span _ _ _ _ h).1.trans (skipFiller_suffix false _)
    exact (ih.trans (suffix_of_skipFiller hcomma)).trans hstop

/-- Each item of an array is read where its text starts. -/
lemma itemsFrom_texts {done items : List Value} {fuel : Nat}
    (h : itemsFrom (value? (depthLimit - 2)) done fuel cs = some (items, rest)) :
    ∃ new, items = done.reverse ++ new ∧ ∀ i v, new[i]? = some v →
      ∃ text stop, ItemText cs i text ∧ value? (depthLimit - 2) text = some (v, stop) := by
  induction fuel generalizing done cs with
  | zero => cases h
  | succ fuel ih =>
    rw [itemsFrom] at h
    split at h
    · cases h
      exact ⟨[], (List.append_nil _).symm, fun i v hv => by simp at hv⟩
    · obtain ⟨⟨item, stop⟩, hitem, h⟩ := Option.bind_eq_some_iff.1 h
      dsimp only at h
      split at h
      · next next hcomma =>
        obtain ⟨new, rfl, hnew⟩ := ih h
        refine ⟨item :: new, by simp, fun i v hv => ?_⟩
        cases i with
        | zero =>
          cases hv
          exact ⟨_, stop, .here, hitem⟩
        | succ i =>
          obtain ⟨text, stop', htext, hv⟩ := hnew i v hv
          exact ⟨text, stop', .next hitem hcomma htext, hv⟩
      · cases h
        refine ⟨[item], by simp, fun i v hv => ?_⟩
        cases i with
        | zero =>
          cases hv
          exact ⟨_, stop, .here, hitem⟩
        | succ i => simp at hv
      · cases h

variable {items : List Value} {span : Span} {u : Table Value}

lemma array_of_reads (h : Reads text (.array items span)) : ∃ inner, text = '[' :: inner ∧
    ∀ i v, items[i]? = some v →
      ∃ text stop, ItemText inner i text ∧ value? (depthLimit - 2) text = some (v, stop) := by
  obtain ⟨rest, h⟩ := h
  rw [show depthLimit - 1 = depthLimit - 2 + 1 from rfl] at h
  cases value?_form h with
  | array hitems =>
    obtain ⟨new, rfl, hnew⟩ := itemsFrom_texts hitems
    exact ⟨_, rfl, hnew⟩

lemma braces_of_reads (h : Reads text (.table u)) : ∃ inner rest as t, text = '\x7b' :: inner ∧
    braced? (value? (depthLimit - 2)) inner = some (as, rest) ∧ ofAssignments? as = some t ∧
      u.entries = t.entries := by
  obtain ⟨rest, h⟩ := h
  rw [show depthLimit - 1 = depthLimit - 2 + 1 from rfl] at h
  cases value?_form h with
  | braces has ht => exact ⟨_, _, _, _, rfl, has, ht, rfl⟩

end Texts

/-! ### Pieces of the source -/

section Source

variable {source rest : List Char} {l c : Chart} {es : List Entry} {a : Address} {s : Span}

lemma source?_within (hreached : Reached source l rest) (hheaded : Headed l)
    (h : l.source? a = some s) : Within source s [] := by
  unfold Chart.source? at h
  split at h
  · obtain ⟨m, hm, rfl⟩ := Option.map_eq_some_iff.1 h
    obtain ⟨hkey, -, hspan⟩ := hreached a m hm
    cases hs : m.span with
    | none => exact hkey.mono List.suffix_rfl List.nil_suffix
    | some s => exact (hspan s hs).mono List.suffix_rfl List.nil_suffix
  · next n hcount =>
    obtain ⟨first, hfirst, h⟩ := Option.bind_eq_some_iff.1 h
    obtain ⟨last, hlast, h⟩ := Option.bind_eq_some_iff.1 h
    cases h
    have hsorted := hheaded.sorted a 0 n first last (Nat.zero_le n) (by omega) hfirst hlast
    exact ⟨(hreached.header hfirst).start, hsorted, List.nil_suffix⟩

lemma ChartAt.traced {k : Chart} (h : ChartAt c es a k)
    (hc : ∃ rest, Reached source c rest ∧ Headed c) (hes : ∀ e ∈ es, e.2 <:+ source) :
    ∃ rest, Reached source k rest ∧ Headed k := by
  cases h with
  | document => exact hc
  | braces h has =>
    have hinner := (List.suffix_cons _ _).trans (hes _ h)
    exact chart_traced (braced?_stand (value?_span _) has).2 hinner

/-- Where a value is found is a piece of the source. -/
theorem Located.within (h : Located c es a s) (hc : ∃ rest, Reached source c rest ∧ Headed c)
    (hes : ∀ e ∈ es, e.2 <:+ source) : Within source s [] := by
  cases h with
  | value h hv => exact ⟨hes _ h, (value?_span _ _ _ _ hv).1, List.nil_suffix⟩
  | item h hi hv =>
    have hinner := (List.suffix_cons _ _).trans (hes _ h)
    exact ⟨hi.suffix.trans hinner, (value?_span _ _ _ _ hv).1, List.nil_suffix⟩
  | table h _ hspan =>
    obtain ⟨rest, hreached, hheaded⟩ := h.traced hc hes
    exact source?_within hreached hheaded hspan

end Source

/-! ### Values of a table -/

/-- The entries of a table at an address are known by their keys, in their order, and each is found
where its span says. -/
structure Surveyed (c : Chart) (es : List Entry) (a : Address) (t : Table Value) : Prop where
  sorted : t.entries.Pairwise fun e f => Before e.1 f.1
  known : ∀ e ∈ t.entries, KnownBy c es (a ++ [.name e.1.name]) e.1
  located : ∀ e ∈ t.entries, Located c es (a ++ [.name e.1.name]) (e.2.span?.getD e.1.span)

section Values

variable {c k : Chart} {es : List Entry} {a b : Address} {t : Table Value} {v w : Value} {key : Key}
  {i : Nat} {items : List Value} {span : Span} {ts : List (Table Value)} {n : String}

/-- A value that is open is found at its header, or else at its key. -/
lemma source?_of_open (hopen : ¬IsClosed v) (hlaid : LaidValue k.mark? b v) (hheaded : Headed k)
    (hcount : k.opened.count b = elements (some v)) (hkey : (k.mark? b).map Mark.key = some key) :
    k.source? b = some (v.span?.getD key.span) := by
  cases v with
  | scalar s span => exact absurd trivial hopen
  | array items span => exact absurd trivial hopen
  | table t =>
    obtain ⟨m, hm, rfl⟩ := Option.map_eq_some_iff.1 hkey
    have hspan := (hlaid.table t rfl hopen).span
    rw [hm, Option.bind_some] at hspan
    have hzero : k.opened.count b = 0 := hcount
    unfold Chart.source?
    rw [hzero]
    dsimp only
    rw [hm, Option.map_some, Value.span?, hspan]
  | tables ts =>
    obtain ⟨n, hn⟩ := Nat.exists_eq_succ_of_ne_zero
      (Nat.ne_of_gt (List.length_pos_iff.2 fun h => hlaid.full (congrArg _ h)))
    have hlength : k.opened.count b = n + 1 := hcount.trans hn
    have hheader : ∀ j, j < n + 1 → ∃ child s, ts[j]? = some child ∧ child.span = some s ∧
        (k.mark? (b ++ [.index j])).bind Mark.span = some s := by
      intro j hj
      obtain ⟨s, hs⟩ := hheaded.header b j (by omega)
      have hchild := List.getElem?_eq_getElem (show j < ts.length by omega)
      exact ⟨_, s, hchild, (hlaid.tables ts rfl j _ hchild).span.trans hs, hs⟩
    obtain ⟨first, s, hfirst, hs, hmark⟩ := hheader 0 (by omega)
    obtain ⟨last, s', hlast, hs', hmark'⟩ := hheader n (by omega)
    have hhead : ts.head? = some first := by rwa [List.head?_eq_getElem?]
    have hgetLast : ts.getLast? = some last := by
      rw [List.getLast?_eq_getElem?, hn]
      exact hlast
    unfold Chart.source?
    rw [hlength]
    simp only [hmark, hmark', Value.span?, hhead, hgetLast, Option.bind_some, hs, hs',
      Option.bind_eq_bind, Option.getD_some]

section Contents

variable (hcontains : Contains Everywhere es v)
include hcontains

lemma located_of_closed (hclosed : IsClosed w) (hw : valueAt? (a ++ [.name n]) v = some w) (s : Span) :
    Located c es (a ++ [.name n]) (w.span?.getD s) := by
  obtain ⟨⟨b, text⟩, he, rfl⟩ := hcontains.only a n w trivial hw hclosed
  obtain ⟨w', hw', -, rest, hread⟩ := hcontains.found _ he
  rw [hw] at hw'
  cases hw'
  rw [(value?_span _ _ _ _ hread).2]
  exact .value he hread

/-- The entries of a table that keeps to its chart. -/
lemma surveyed (hchart : ChartAt c es a k) (hopen : ∀ e ∈ es, e.1 <+: a ++ b → e.1 <+: a)
    (hlaid : Laid k.mark? b t) (hheaded : Headed k)
    (hvalues : ∀ e ∈ t.entries, valueAt? (a ++ b ++ [.name e.1.name]) v = some e.2)
    (hcounts : ∀ e ∈ t.entries, k.opened.count (b ++ [.name e.1.name]) = elements (some e.2)) :
    Surveyed c es (a ++ b) t where
  sorted := hlaid.sorted
  known e he := by
    obtain ⟨m, hm, hkey⟩ := Option.map_eq_some_iff.1 (hlaid.known he)
    have hknown : KnownBy c es (a ++ (b ++ [.name e.1.name])) m.key := by
      refine .intro hchart (fun e' he' hle => ?_) hm
      rw [← List.append_assoc] at hle ⊢
      exact (List.prefix_concat_iff.1 hle).symm.imp_left (hopen e' he')
    rwa [hkey, ← List.append_assoc] at hknown
  located e he := by
    by_cases hclosed : IsClosed e.2
    · exact located_of_closed hcontains hclosed (hvalues e he) e.1.span
    · rw [List.append_assoc]
      refine .table hchart (fun e' he' hle => ?_)
        (source?_of_open hclosed (hlaid.value he) hheaded (hcounts e he) (hlaid.known he))
      rw [← List.append_assoc] at hle
      refine (List.prefix_concat_iff.1 hle).elim (fun heq => ?_) (hopen e' he')
      obtain ⟨w, hw, hclosed', -⟩ := hcontains.found e' he'
      rw [heq, hvalues e he] at hw
      cases hw
      exact absurd hclosed' hclosed

/-- The items of an array. -/
lemma located_item (hw : valueAt? (a ++ [.name n]) v = some (.array items span))
    (hi : items[i]? = some w) (s : Span) :
    Located c es (a ++ [.name n] ++ [.index i]) (w.span?.getD s) := by
  obtain ⟨⟨b, text⟩, he, rfl⟩ := hcontains.only a n _ trivial hw trivial
  obtain ⟨w', hw', -, hreads⟩ := hcontains.found _ he
  rw [hw] at hw'
  cases hw'
  obtain ⟨inner, rfl, hitems⟩ := array_of_reads hreads
  obtain ⟨text, stop, htext, hread⟩ := hitems i w hi
  rw [(value?_span _ _ _ _ hread).2]
  exact .item he htext hread

omit hcontains in
/-- The tables of headers in double brackets. -/
lemma located_element (hopen : ∀ e ∈ es, ¬e.1 <+: b ++ [.index i])
    (hlaid : LaidValue c.mark? b (.tables ts)) (hheaded : Headed c)
    (hcount : c.opened.count b = ts.length) (hzero : c.opened.count (b ++ [.index i]) = 0)
    (hi : ts[i]? = some t) (s : Span) : Located c es (b ++ [.index i]) (t.span.getD s) := by
  have hlength := (List.getElem?_eq_some_iff.1 hi).1
  obtain ⟨header, hheader⟩ := hheaded.header b i (by omega)
  rw [(hlaid.tables ts rfl i t hi).span, hheader, Option.getD_some]
  obtain ⟨m, hm, hspan⟩ := Option.bind_eq_some_iff.1 hheader
  have hsource : c.source? (b ++ [.index i]) = some header := by
    unfold Chart.source?
    rw [hzero]
    dsimp only
    rw [hm, Option.map_some, hspan, Option.getD_some]
  exact .table (a := []) .document (fun e he hle => absurd hle (hopen e he)) hsource

end Contents

end Values

end MemberRelay.Proofs
