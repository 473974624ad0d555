import MemberRelay.Proofs.Toml.Charted

/-!
# Documents keep to their charts

The table of a document keeps to the chart of its statements, and a table in braces to the chart of
its assignments. All that is marked stands in the text.
-/

namespace MemberRelay.Proofs
open Toml

/-! ### Marks and the text -/

/-- The keys and headers that are marked stand in the text before the rest. -/
def Reached (source : List Char) (l : Chart) (rest : List Char) : Prop :=
  ∀ b m, l.mark? b = some m → Within source m.key.span rest ∧
    rest.length < m.key.span.start.length ∧ ∀ s, m.span = some s → Within source s rest

/-- Each of several tables has a header, which does not end before those of the tables before it
start. -/
structure Headed (l : Chart) : Prop where
  header : ∀ a i, i < l.opened.count a → ∃ s, (l.mark? (a ++ [.index i])).bind Mark.span = some s
  sorted : ∀ a i j s s', i ≤ j → j < l.opened.count a →
    (l.mark? (a ++ [.index i])).bind Mark.span = some s →
    (l.mark? (a ++ [.index j])).bind Mark.span = some s' → s'.stop <:+ s.start

section Text

variable {source cs rest : List Char} {l : Chart} {s : Statement} {keys : List (Address × Key)}
  {v : Value} {o : Outline} {path : List Key} {key : Key} {span : Span}

lemma Reached.mono (h : Reached source l cs) (hrest : rest <:+ cs) : Reached source l rest := by
  intro b m hm
  obtain ⟨hkey, hlength, hspan⟩ := h b m hm
  exact ⟨hkey.mono List.suffix_rfl hrest, Nat.lt_of_le_of_lt hrest.length_le hlength,
    fun s hs => (hspan s hs).mono List.suffix_rfl hrest⟩

lemma Reached.earlier (h : Reached source l cs) {ks : List Key}
    (hks : ∀ k ∈ ks, Within cs k.span rest) : Earlier l ks := by
  intro k hk b m hm
  exact Nat.lt_of_le_of_lt (hks k hk).start.length_le (h b m hm).2.1

lemma Reached.note (h : Reached source l rest)
    (hkeys : ∀ p ∈ keys, Within source p.2.span rest ∧ rest.length < p.2.span.start.length) :
    Reached source (l.note keys) rest := by
  intro b m hm
  cases hold : l.mark? b with
  | some m' =>
    rw [note_of_some hold] at hm
    cases hm
    exact h b m hold
  | none =>
    dsimp only [Chart.note] at hm
    rw [hold, Option.none_or] at hm
    obtain ⟨k, hk, rfl⟩ := Option.map_eq_some_iff.1 hm
    obtain ⟨before, after, heq, -⟩ := List.lookup_eq_some_iff.1 hk
    have hmem : (b, k) ∈ keys := by simp [heq]
    exact ⟨(hkeys _ hmem).1, (hkeys _ hmem).2, fun s hs => nomatch hs⟩

/-- A value that is assigned stands after the header. -/
lemma Reached.extend (h : Reached source l cs) (hv : v.span? = some span) (hspan : Within cs span rest) :
    Reached source (l.extend v) rest := by
  have hrest := h.mono hspan.suffix
  intro b m hm
  by_cases hb : b = l.current
  · subst hb
    rw [extend_current] at hm
    obtain ⟨m', hm', rfl⟩ := Option.map_eq_some_iff.1 hm
    refine ⟨(hrest _ m' hm').1, (hrest _ m' hm').2.1, fun s hs => ?_⟩
    obtain ⟨s', hs', rfl⟩ := Option.map_eq_some_iff.1 hs
    have hold := (h _ m' hm').2.2 s' hs'
    have hstop : (reach s' v).stop = span.stop := by rw [reach, hv]; rfl
    refine ⟨hold.start, ?_, ?_⟩
    · rw [hstop]
      exact ((hspan.stop.trans hspan.start).trans hold.rest).trans hold.stop
    · rw [hstop]
      exact hspan.rest
  · rw [extend_of_ne hb] at hm
    exact hrest b m hm

lemma Reached.head (h : Reached source l rest)
    (hkeys : ∀ k ∈ path ++ [key], Within source k.span rest ∧ rest.length < k.span.start.length)
    (hspan : Within source span rest) : Reached source (l.head o path key span) rest := by
  intro b m hm
  by_cases hb : b = o.current
  · rw [hb, head_current] at hm
    cases hm
    have hkey := hkeys key (by simp)
    exact ⟨hkey.1, hkey.2, fun s hs => Option.some.inj hs ▸ hspan⟩
  · rw [head_of_ne hb] at hm
    exact (h.note fun p hp => hkeys p.2 (mem_keys_of_mem_along hp)) b m hm

/-- A statement marks its keys, and its header. -/
lemma Reached.add (h : Reached source l cs) (hcs : cs <:+ source) (hs : Placed cs s rest) :
    Reached source (l.add s) rest := by
  obtain ⟨span, hspan, hwithin⟩ := hs.span
  have hkeys : ∀ k ∈ Statement.keys s, Within source k.span rest ∧
      rest.length < k.span.start.length :=
    fun k hk => ⟨(hs.keys k hk).1.mono hcs List.suffix_rfl, (hs.keys k hk).2⟩
  cases s with
  | assign a => exact (h.extend hspan hwithin).note fun p hp => hkeys p.2 (mem_keys_of_mem_along hp)
  | openTable path key span' | openElement path key span' =>
    cases hspan
    exact (h.mono hs.suffix).head hkeys (hwithin.mono hcs List.suffix_rfl)

lemma Reached.header {b : Address} (h : Reached source l rest)
    (hs : (l.mark? b).bind Mark.span = some span) : Within source span rest := by
  obtain ⟨m, hm, hspan⟩ := Option.bind_eq_some_iff.1 hs
  exact (h b m hm).2.2 span hspan

lemma extend_span_eq_some {b : Address} (h : ((l.extend v).mark? b).bind Mark.span = some span) :
    ∃ s, (l.mark? b).bind Mark.span = some s ∧ span.start = s.start ∧
      (span.stop = s.stop ∨ ∃ s', v.span? = some s' ∧ span.stop = s'.stop) := by
  by_cases hb : b = l.current
  · subst hb
    rw [extend_current] at h
    obtain ⟨m, hm, hspan⟩ := Option.bind_eq_some_iff.1 h
    obtain ⟨m', hm', rfl⟩ := Option.map_eq_some_iff.1 hm
    obtain ⟨s, hs, rfl⟩ := Option.map_eq_some_iff.1 hspan
    refine ⟨s, by rw [hm', Option.bind_some, hs], rfl, ?_⟩
    cases hv : v.span? with
    | none => exact .inl (by rw [reach, hv]; rfl)
    | some s' => exact .inr ⟨s', rfl, by rw [reach, hv]; rfl⟩
  · rw [extend_of_ne hb] at h
    exact ⟨span, h, rfl, .inl rfl⟩

lemma Headed.assign (h : Headed l) (hreached : Reached source l cs) (hv : v.span? = some span)
    (hspan : Within cs span rest) : Headed ((l.extend v).note keys) where
  header b i hi := by
    obtain ⟨s, hs⟩ := h.header b i hi
    rw [note_span]
    by_cases hb : b ++ [.index i] = l.current
    · rw [hb] at hs ⊢
      obtain ⟨m, hm, hspan⟩ := Option.bind_eq_some_iff.1 hs
      rw [extend_current, hm]
      exact ⟨reach s v, by simp [Mark.extend, hspan]⟩
    · rw [extend_of_ne hb]
      exact ⟨s, hs⟩
  sorted b i j s s' hij hj hs hs' := by
    rw [note_span] at hs hs'
    obtain ⟨t, ht, hstart, -⟩ := extend_span_eq_some hs
    obtain ⟨t', ht', -, hstop | ⟨w, hw, hstop⟩⟩ := extend_span_eq_some hs'
    · rw [hstop, hstart]
      exact h.sorted b i j t t' hij hj ht ht'
    · rw [hv] at hw
      cases hw
      have hold := hreached.header ht
      rw [hstop, hstart]
      exact ((hspan.stop.trans hspan.start).trans hold.rest).trans hold.stop

/-- The table that a header opens has its header after all others. -/
lemma Headed.head (h : Headed l) (hreached : Reached source l cs) (hspan : Within cs span rest)
    (hnew : ∀ a i, i < o.opened.count a → i < l.opened.count a ∨ a ++ [.index i] = o.current)
    (hlast : ∀ a i, a ++ [.index i] = o.current → l.opened.count a ≤ i) :
    Headed (l.head o path key span) where
  header a i hi := by
    by_cases hcurrent : a ++ [.index i] = o.current
    · rw [hcurrent, head_current]
      exact ⟨span, rfl⟩
    · rw [head_span hcurrent]
      exact h.header a i ((hnew a i hi).resolve_right hcurrent)
  sorted a i j s s' hij hj hs hs' := by
    by_cases hcurrent' : a ++ [.index j] = o.current
    · rw [hcurrent', head_current] at hs'
      cases hs'
      by_cases hcurrent : a ++ [.index i] = o.current
      · rw [hcurrent, head_current] at hs
        cases hs
        exact hspan.stop
      · rw [head_span hcurrent] at hs
        have hold := hreached.header hs
        exact ((hspan.stop.trans hspan.start).trans hold.rest).trans hold.stop
    · have hj' := (hnew a j hj).resolve_right hcurrent'
      have hcurrent : a ++ [.index i] ≠ o.current := by
        intro heq
        have hle := hlast a i heq
        omega
      rw [head_span hcurrent] at hs
      rw [head_span hcurrent'] at hs'
      exact h.sorted a i j s s' hij hj' hs hs'

lemma Headed.add (h : Headed l) (hreached : Reached source l cs) (hs : Placed cs s rest) :
    Headed (l.add s) := by
  obtain ⟨span, hspan, hwithin⟩ := hs.span
  cases s with
  | assign a => exact h.assign hreached hspan hwithin
  | openTable path key span =>
    cases hspan
    refine h.head hreached hwithin (fun a i hi => .inl hi) fun a i heq => ?_
    have hlast := congrArg List.getLast? heq
    simp [Outline.openTable, Outline.header] at hlast
  | openElement path key span =>
    cases hspan
    refine h.head hreached hwithin (fun a i hi => ?_) fun a i heq => ?_
    · by_cases ha : a = l.header path key
      · subst ha
        have hcount : (l.openElement path key).opened.count (l.header path key) =
            l.opened.count (l.header path key) + 1 := List.count_cons_self
        rcases Nat.lt_or_eq_of_le (Nat.le_of_lt_succ (hcount ▸ hi)) with hlt | heq
        · exact .inl hlt
        · right
          rw [heq]
          rfl
      · have hcount : (l.openElement path key).opened.count a = l.opened.count a :=
          List.count_cons_of_ne (Ne.symm ha)
        exact .inl (hcount ▸ hi)
    · obtain ⟨rfl, hindex⟩ := List.append_inj' heq rfl
      cases hindex
      exact Nat.le_refl _

/-- The marks of statements that stand in a text stand in it. -/
lemma Stand.traced {ss : List Statement} (h : Stand cs ss) (hcs : cs <:+ source)
    (hreached : Reached source l cs) (hheaded : Headed l) :
    ∃ rest, Reached source (ss.foldl Chart.add l) rest ∧ Headed (ss.foldl Chart.add l) := by
  induction h generalizing l with
  | nil => exact ⟨_, hreached, hheaded⟩
  | cons hs _ ih =>
    exact ih (hs.suffix.trans hcs) (hreached.add hcs hs) (hheaded.add hreached hs)

theorem chart_traced {ss : List Statement} (h : Stand cs ss) (hcs : cs <:+ source) :
    ∃ rest, Reached source (chart ss) rest ∧ Headed (chart ss) :=
  h.traced hcs (fun _ _ hm => (nomatch hm))
    ⟨fun _ _ hi => (nomatch hi), fun _ _ _ _ _ _ hj => (nomatch hj)⟩

end Text

/-! ### Documents -/

/-- A document in the making, when `rest` is left of its text. -/
structure Kept (source : List Char) (l : Chart) (es : List Entry) (hs : List Address) (d : Draft)
    (rest : List Char) : Prop extends Drafted l.toOutline es hs d where
  charted : Charted l.opened l.mark? [] d.root
  reached : Reached source l rest
  suffix : rest <:+ source

section Documents

variable {source cs rest : List Char} {l : Chart} {es : List Entry} {hs : List Address}
  {d d' : Draft} {p b : Address} {new v v' : Value} {s : Statement} {path : List Key} {key : Key}

/-- A change removes nothing if the new value has what stood at its place. -/
lemma present_of_put (hput : Put p new v v')
    (hkeep : ∀ c, c ≠ [] → valueAt? (p ++ c) v ≠ none → valueAt? c new ≠ none)
    (h : b <+: p ∨ valueAt? b v ≠ none) : valueAt? b v' ≠ none := by
  by_cases hbp : b <+: p
  · by_cases heq : b = p
    · rw [heq, hput.at]
      exact Option.some_ne_none new
    · have hpassed := hput.way b hbp heq
      generalize valueAt? b v = w?, valueAt? b v' = w?' at hpassed ⊢
      cases hpassed <;> exact Option.some_ne_none _
  · have hb := h.resolve_left hbp
    by_cases hpb : p <+: b
    · obtain ⟨c, rfl⟩ := hpb
      rw [hput.below]
      refine hkeep c ?_ hb
      rintro rfl
      rw [List.append_nil] at hbp
      exact hbp List.prefix_rfl
    · rwa [hput.beside b hbp hpb]

lemma kept_start (origin : Origin) (hcs : cs <:+ source) :
    Kept source .start [] [] ⟨Table.empty origin, []⟩ cs where
  contains := contains_empty origin
  counted := counted_empty origin
  leads := rfl
  here := .inl rfl
  opened _ hh := absurd hh List.not_mem_nil
  clear _ he := absurd he List.not_mem_nil
  once := List.nodup_nil
  charted := ⟨laid_empty rfl, fun _ _ _ => rfl, counted_empty origin⟩
  reached _ _ hm := nomatch hm
  suffix := hcs

lemma exists_name_way {opened : List Address} : ∃ n : String,
    b ++ [.name n] <+: lead opened b path ++ [.name key.name] := by
  cases path with
  | nil => exact ⟨key.name, List.prefix_rfl⟩
  | cons k path =>
    exact ⟨k.name, (prefix_lastOf.trans prefix_lead).trans (List.prefix_append _ _)⟩

lemma Kept.assign {a : Assignment} {text : List Char} {inner : List Entry}
    (h : Kept source l es hs d cs) (hplaced : Placed cs (.assign a) rest)
    (hsaid : Says text inner a.value) (hadd : d.add (.assign a) = some d') :
    Kept source (l.add (.assign a)) (es ++ assigned (l.entry a.path a.key) text inner) hs d' rest := by
  have hdrafted := h.toDrafted.assign hsaid hadd
  have hlate : Earlier l (a.path ++ [a.key]) := h.reached.earlier fun k hk => (hplaced.keys k hk).1
  have hopen := h.toDrafted.openAlong_current
  rw [h.leads] at hopen
  obtain ⟨root, hroot, rfl⟩ := Option.map_eq_some_iff.1 hadd
  obtain ⟨b, henters, hnone⟩ := within_enters h.counted h.toDrafted.openAlong_current hroot
  have hlead := henters.lead
  rw [lead_append, h.leads, List.nil_append] at hlead
  refine ⟨hdrafted, ⟨?_, ?_, hdrafted.counted⟩, h.reached.add h.suffix hplaced,
    hplaced.suffix.trans h.suffix⟩
  · have hcurrent : l.current <+: lead l.opened l.current a.path ++ [.name a.key.name] :=
      prefix_lead.trans (List.prefix_append _ _)
    have hguides : Guides l.opened l.mark? (l.add (.assign a)).mark? [] d.current
        (lead l.opened l.current a.path ++ [.name a.key.name]) := by
      refine ⟨(leads_extend hcurrent).trans (leads_note fun p hp => prefix_of_mem_along_concat hp), ?_,
        fun b _ hb => ?_⟩
      · rw [h.leads]
        exact exists_name_way
      · rw [h.leads] at hb
        rw [Chart.add, note_span, extend_of_ne hb]
    refine within_laid hguides h.leads hopen (fun u u' hu hassign => ?_) h.charted hroot
    rw [h.leads] at hu ⊢
    exact assign_laid hsaid.closed hlate hu hassign
  · intro c hc hmissing
    have hkeep : ∀ e, e ≠ [] → valueAt? (b ++ [.name a.key.name] ++ e) (.table d.root) ≠ none →
        valueAt? e a.value ≠ none := fun e _ he => absurd (valueAt?_append_of_none hnone e) he
    have hway : ¬c <+: b ++ [.name a.key.name] :=
      fun hle => present_of_put henters.put hkeep (.inl hle) hmissing
    have hold : valueAt? c (.table d.root) = none := by
      by_contra hne
      exact present_of_put henters.put hkeep (.inr hne) hmissing
    have hmark : l.mark? c = none := h.charted.marked c hc hold
    have hnote : ∀ p ∈ along l.opened l.current (a.path ++ [a.key]), p.1 ≠ c := by
      rintro p hp rfl
      rw [← hlead] at hway
      exact hway (prefix_of_mem_along_concat hp)
    refine (note_of_not_mem (l := l.extend a.value) hnote).trans ?_
    by_cases hcurrent : c = l.current
    · subst hcurrent
      rw [extend_current, hmark, Option.map_none]
    · rw [extend_of_ne hcurrent, hmark]

/-- What a header marks is there after it. -/
lemma Kept.head_marked {o : Outline} {span : Span} {root : Table Value} (h : Kept source l es hs d cs)
    (henters : Enters l.opened [] path key d.root root p new)
    (hgrows : Grows (valueAt? (p ++ [.name key.name]) (.table d.root)) new)
    (hcurrent : IsOpened o.current (.table root)) (hb : b ≠ [])
    (hmissing : valueAt? b (.table root) = none) : (l.head o path key span).mark? b = none := by
  have hkeep : ∀ e, e ≠ [] → valueAt? (p ++ [.name key.name] ++ e) (.table d.root) ≠ none →
      valueAt? e new ≠ none := by
    intro e hne he
    obtain ⟨w, hw⟩ := Option.ne_none_iff_exists'.1 he
    rw [valueAt?_append] at hw
    rw [hgrows.keeps e hne w hw]
    exact Option.some_ne_none w
  have hne : b ≠ o.current := by
    rintro rfl
    obtain ⟨t, ht, -⟩ := hcurrent
    rw [hmissing] at ht
    cases ht
  have hold : valueAt? b (.table d.root) = none := by
    by_contra hold
    exact present_of_put henters.put hkeep (.inr hold) hmissing
  have hnote : ∀ q ∈ along l.opened [] (path ++ [key]), q.1 ≠ b := by
    rintro q hq rfl
    have hway := prefix_of_mem_along_concat hq
    rw [henters.lead, List.nil_append] at hway
    exact present_of_put henters.put hkeep (.inl hway) hmissing
  rw [head_of_ne hne, note_of_not_mem hnote]
  exact h.charted.marked b hb hold

lemma Kept.openTable {span : Span} (h : Kept source l es hs d cs)
    (hplaced : Placed cs (.openTable path key span) rest)
    (hadd : d.add (.openTable path key span) = some d') :
    Kept source (l.add (.openTable path key span)) es (hs ++ [(l.openTable path key).current]) d'
      rest := by
  have hdrafted := h.toDrafted.openTable hadd
  have hcurrent := hdrafted.opened _ (List.mem_append_right _ (List.mem_singleton_self _))
  have hlate : Earlier l (path ++ [key]) := h.reached.earlier fun k hk => (hplaced.keys k hk).1
  obtain ⟨root, hroot, rfl⟩ := Option.map_eq_some_iff.1 hadd
  obtain ⟨a, new, henters, hopens⟩ := openTable_enters h.counted hroot
  refine ⟨hdrafted, ⟨openTable_laid hlate h.charted hroot, fun c hc hmissing => ?_, hdrafted.counted⟩,
    h.reached.add h.suffix hplaced, hplaced.suffix.trans h.suffix⟩
  exact h.head_marked henters hopens.grows hcurrent hc hmissing

lemma Kept.openElement {span : Span} (h : Kept source l es hs d cs)
    (hplaced : Placed cs (.openElement path key span) rest)
    (hadd : d.add (.openElement path key span) = some d') :
    Kept source (l.add (.openElement path key span)) es (hs ++ [(l.openElement path key).current]) d'
      rest := by
  have hdrafted := h.toDrafted.openElement hadd
  have hcurrent := hdrafted.opened _ (List.mem_append_right _ (List.mem_singleton_self _))
  have hlate : Earlier l (path ++ [key]) := h.reached.earlier fun k hk => (hplaced.keys k hk).1
  obtain ⟨root, hroot, rfl⟩ := Option.map_eq_some_iff.1 hadd
  obtain ⟨a, new, henters, hadds⟩ := openElement_enters h.counted hroot
  refine ⟨hdrafted, ⟨openElement_laid hlate h.charted hroot, fun c hc hmissing => ?_,
    hdrafted.counted⟩, h.reached.add h.suffix hplaced, hplaced.suffix.trans h.suffix⟩
  exact h.head_marked henters hadds.grows hcurrent hc hmissing

/-- Each statement keeps the table to its chart, and so do all of them. -/
lemma Kept.foldlM {ss : List Statement} {es' : List Entry} {hs' : List Address}
    (h : Kept source l es hs d cs) (htold : Told l.toOutline es' hs' ss) (hstand : Stand cs ss)
    (hfold : ss.foldlM Draft.add d = some d') :
    ∃ rest, Kept source (ss.foldl Chart.add l) (es ++ es') (hs ++ hs') d' rest := by
  induction ss generalizing l es hs d cs es' hs' with
  | nil =>
    cases htold
    cases hfold
    rw [List.append_nil, List.append_nil]
    exact ⟨cs, h⟩
  | cons s ss ih =>
    obtain ⟨d₁, hadd, hnext⟩ := Option.bind_eq_some_iff.1 hfold
    cases hstand with
    | cons hplaced hstand =>
      cases htold with
      | assign hsaid htold =>
        rw [← List.append_assoc]
        exact ih (h.assign hplaced hsaid hadd) htold hstand hnext
      | openTable htold =>
        rw [List.append_cons]
        exact ih (h.openTable hplaced hadd) htold hstand hnext
      | openElement htold =>
        rw [List.append_cons]
        exact ih (h.openElement hplaced hadd) htold hstand hnext

/-- A document keeps to the chart of its statements. -/
theorem document?_kept {t : Table Value} (h : document? cs = some t) : ∃ ss es hs d rest,
    statements? cs = some ss ∧ Lists .start (withoutMark cs) es hs ∧ d.root = t ∧
      Kept cs (chart ss) es hs d rest := by
  obtain ⟨ss, hss, hof⟩ := Option.bind_eq_some_iff.1 h
  obtain ⟨d, hfold, rfl⟩ := Option.map_eq_some_iff.1 hof
  obtain ⟨es, hs, hlists, htold⟩ := statements?_told hss
  obtain ⟨rest, hkept⟩ := (kept_start .header List.suffix_rfl).foldlM htold (statements?_stand hss) hfold
  exact ⟨ss, es, hs, d, rest, hss, hlists, rfl, hkept⟩

end Documents

/-! ### Braces -/

section Braces

variable {source cs rest : List Char} {es : List Entry} {as : List Assignment} {t t' : Table Value}
  {path : List Key} {key : Key} {v : Value}

lemma alter_span {dotted : Bool} {change : Table Value → Option (Table Value)}
    (hspan : ∀ u u', change u = some u' → u'.span = u.span)
    (h : Table.alter dotted change path t = some t') : t'.span = t.span := by
  cases path with
  | nil => exact hspan t t' h
  | cons key path =>
    rw [Table.alter] at h
    split at h
    · obtain ⟨child, -, rfl⟩ := Option.map_eq_some_iff.1 h
      rfl
    · split at h
      · obtain ⟨child, -, rfl⟩ := Option.map_eq_some_iff.1 h
        rfl
      · cases h
    · split at h
      · obtain ⟨child, -, rfl⟩ := Option.map_eq_some_iff.1 h
        rfl
      · cases h
    · cases h

lemma assign_span (h : t.assign path key v = some t') : t'.span = t.span := by
  refine alter_span ?_ h
  intro u u' hu
  split at hu
  · cases hu
  · split at hu
    · cases hu
    · cases hu
      rfl

/-- Assignments between braces are those of a document that no header opens. -/
lemma foldlM_add_assign (hspan : t.span = none)
    (h : as.foldlM (fun t a => t.assign a.path a.key a.value) t = some t') :
    (as.map Statement.assign).foldlM Draft.add ⟨t, []⟩ = some ⟨t', []⟩ := by
  induction as generalizing t with
  | nil =>
    cases h
    rfl
  | cons a as ih =>
    obtain ⟨u, hassign, hnext⟩ := Option.bind_eq_some_iff.1 h
    have hextend : t.extend a.value = t := by rw [Table.extend, hspan]
    replace hassign : t.assign a.path a.key a.value = some u := hassign
    have hadd : Draft.add ⟨t, []⟩ (.assign a) = some ⟨u, []⟩ := by
      rw [Draft.add, Table.within, hextend, hassign]
      rfl
    rw [List.map_cons, List.foldlM_cons, hadd]
    exact ih ((assign_span hassign).trans hspan) hnext

lemma Paired.told (h : Paired es as) : Told .start es [] (as.map .assign) := by
  induction h with
  | nil => exact .nil
  | @cons text inner es a as hsaid _ ih =>
    have hentry : Outline.start.entry a.path a.key = pathNames a.path ++ [.name a.key.name] := by
      rw [Outline.entry, Outline.start, lead_nil, List.nil_append]
    rw [← hentry]
    exact .assign hsaid ih

lemma braced?_paired {read? : Reader Value} (hread : ReadsWritten read?)
    (h : braced? read? cs = some (as, rest)) : ∃ es, Paired es as := by
  rw [braced?] at h
  split at h
  · cases h
    exact ⟨[], .nil⟩
  · obtain ⟨as, es, rfl, -, hpaired⟩ := assignmentsFrom_paired hread h
    exact ⟨es, hpaired⟩

/-- A table in braces keeps to the chart of its assignments. -/
theorem braced?_kept {depth : Nat} (hdepth : depth < depthLimit) (hcs : cs <:+ source)
    (h : braced? (value? depth) cs = some (as, rest)) (ht : ofAssignments? as = some t) :
    ∃ es d rest, d.root = t ∧ Kept source (chart (as.map .assign)) es [] d rest := by
  obtain ⟨es, hpaired⟩ := braced?_paired (value?_written hdepth) h
  obtain ⟨rest, hkept⟩ := (kept_start .braces hcs).foldlM hpaired.told
    (braced?_stand (value?_span depth) h).2 (foldlM_add_assign rfl ht)
  exact ⟨es, ⟨t, []⟩, rest, rfl, hkept⟩

end Braces

end MemberRelay.Proofs
