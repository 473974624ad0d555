import MemberRelay.Proofs.Settings.Misfits
import MemberRelay.Proofs.Settings.Statements
import MemberRelay.Proofs.Toml.Order
import MemberRelay.Proofs.Toml.Report

/-!
# Reports on settings

A document with values that do not fit is refused with a report on the first of them. The report
points at the piece of the text where that value is found.
-/

namespace MemberRelay.Proofs
open Toml Settings

/-! ### Sections of a document -/

section Documents

variable {source rest : List Char} {c : Chart} {es : List Entry} {hs : List Address} {d : Draft}
  {i : Visited} {entry : Key × Value} {u : Table Value}

lemma Surveyed.congr {a : Address} {t : Table Value} (h : Surveyed c es a t)
    (hentries : u.entries = t.entries) : Surveyed c es a u := by
  obtain ⟨hsorted, hknown, hlocated⟩ := h
  rw [← hentries] at hsorted hknown hlocated
  exact ⟨hsorted, hknown, hlocated⟩

variable (h : Kept source c es hs d rest) (hheaded : Headed c) (ht : Proper (.table d.root))
include h hheaded ht

lemma surveyed_root : Surveyed c es [] d.root := by
  refine surveyed h.contains (a := []) (b := []) .document (fun e _ hle => hle) h.charted.laid hheaded
    (fun e he => valueAt?_name.trans (find?_of_mem ht he)) fun e he => ?_
  have hcount := h.counted [.name e.1.name]
  rwa [valueAt?_name, find?_of_mem ht he] at hcount

lemma surveyed_section (hentry : entry ∈ d.root.entries) (hu : entry.2 = .table u) :
    Surveyed c es [.name entry.1.name] u := by
  have hfind : valueAt? [.name entry.1.name] (.table d.root) = some (.table u) :=
    valueAt?_name.trans ((find?_of_mem ht hentry).trans (congrArg some hu))
  have hproper : Proper (.table u) := hu ▸ ht.entry hentry
  have hvalue : ∀ e ∈ u.entries,
      valueAt? [.name entry.1.name, .name e.1.name] (.table d.root) = some e.2 := fun e he =>
    (valueAt?_append_of_some hfind _).trans (valueAt?_name.trans (find?_of_mem hproper he))
  by_cases horigin : u.origin = .braces
  · -- a table in braces keeps to a chart of its own
    obtain ⟨⟨a, text⟩, he, rfl⟩ := h.contains.only [] entry.1.name _ trivial hfind horigin
    obtain ⟨w, hw, -, hreads⟩ := h.contains.found _ he
    rw [List.nil_append, hfind] at hw
    cases hw
    obtain ⟨inner, stop, as, t, rfl, has, ht', hentries⟩ := braces_of_reads hreads
    obtain ⟨es', d', rest', rfl, hkept⟩ := braced?_kept (by decide) List.suffix_rfl has ht'
    obtain ⟨-, -, hheaded'⟩ := chart_traced (braced?_stand (value?_span _) has).2 List.suffix_rfl
    refine Surveyed.congr ?_ hentries
    rw [hentries] at hvalue
    refine surveyed h.contains (a := [.name entry.1.name]) (b := []) (.braces he has)
      (fun e _ hle => hle) hkept.charted.laid hheaded' hvalue fun e he => ?_
    have hcount := hkept.counted [.name e.1.name]
    have hfind' : d'.root.find? e.1.name = some e.2 := by
      rw [Table.find?, ← hentries]
      exact find?_of_mem hproper (hentries ▸ he)
    rwa [valueAt?_name, hfind'] at hcount
  · have hopen : OpenAlong [.name entry.1.name] (.table d.root) := by
      refine openAlong_nil.name (fun w hw => ?_)
      rw [List.nil_append, hfind] at hw
      cases hw
      exact horigin
    refine surveyed h.contains (a := []) (b := [.name entry.1.name]) .document
      (fun e he hle => absurd hle (h.contains.not_above hopen e he))
      ((h.charted.laid.value hentry).table u hu horigin) hheaded hvalue fun e he => ?_
    have hcount := h.counted [.name entry.1.name, .name e.1.name]
    rwa [hvalue e he] at hcount

/-- The members of a section are found where their spans say. -/
lemma located_member {key : Key} {v : Value} {names : List String} {p : Member}
    (hentry : (key, v) ∈ d.root.entries) (hp : p ∈ members names key.span v) :
    Located c es [.name key.name, p.selector] (p.value.span?.getD p.span) := by
  have hfind : valueAt? [.name key.name] (.table d.root) = some v :=
    valueAt?_name.trans (find?_of_mem ht hentry)
  cases v with
  | scalar s span => exact absurd hp List.not_mem_nil
  | table u =>
    obtain ⟨f, hf, rfl⟩ := List.mem_map.1 hp
    exact (surveyed_section h hheaded ht hentry rfl).located f hf
  | array vs span =>
    obtain ⟨k, -, hvalue, hselector, -⟩ := mem_ordered.1 hp
    rw [hselector]
    exact located_item h.contains (a := []) hfind hvalue p.span
  | tables ts =>
    obtain ⟨k, -, hvalue, hselector, -⟩ := mem_ordered.1 hp
    rw [List.getElem?_map] at hvalue
    obtain ⟨u, hu, heq⟩ := Option.map_eq_some_iff.1 hvalue
    have hcount := h.counted [.name key.name]
    rw [hfind] at hcount
    have hzero := h.counted [.name key.name, .index k]
    rw [← List.singleton_append, valueAt?_append_of_some hfind, valueAt?, hu] at hzero
    have hopen : OpenAlong ([.name key.name] ++ [.index k]) (.table d.root) := by
      refine OpenAlong.index (openAlong_nil.name fun w hw => ?_) k
      rw [List.nil_append, hfind] at hw
      cases hw
      exact id
    rw [hselector, ← heq]
    exact located_element (h.contains.not_above hopen) (h.charted.laid.value hentry) hheaded hcount
      hzero hu p.span

/-- Each item is found where its span says. -/
lemma located_of_mem (hi : i ∈ items d.root) : Located c es i.address i.span := by
  obtain ⟨entry, hentry, e, -, hi⟩ := mem_items.1 hi
  rcases mem_sectionItems.1 hi with rfl | ⟨p, hp, e', -, rfl⟩
  · exact (surveyed_root h hheaded ht).located entry hentry
  · exact located_member h hheaded ht hentry hp

lemma precedes_members {key : Key} {v : Value} {names : List String}
    (hentry : (key, v) ∈ d.root.entries) :
    (members names key.span v).Pairwise fun p q =>
      Precedes c es [.name key.name, p.selector] [.name key.name, q.selector] := by
  have hordered : ∀ vs span, (ordered names span vs).Pairwise fun p q =>
      Precedes c es [.name key.name, p.selector] [.name key.name, q.selector] := by
    intro vs span
    have hindices : ((names.zip vs).zipIdx.map Prod.snd).Pairwise (· < ·) := by
      rw [List.zipIdx_map_snd]
      exact List.pairwise_lt_range'
    refine List.pairwise_map.2 ((List.pairwise_map.1 hindices).imp fun hlt => ?_)
    exact .indexed (a := [.name key.name]) hlt
  cases v with
  | scalar s span => exact .nil
  | table u =>
    have hsurveyed := surveyed_section h hheaded ht hentry rfl
    refine List.pairwise_map.2 (hsurveyed.sorted.imp_of_mem fun he hf hbefore => ?_)
    exact .named (a := [.name key.name]) (hsurveyed.known _ he) (hsurveyed.known _ hf) hbefore
  | array vs span => exact hordered vs span
  | tables ts => exact hordered (ts.map .table) key.span

/-- Items are visited in the order of their addresses. -/
lemma precedes_items : (items d.root).Pairwise fun i j => Precedes c es i.address j.address := by
  have hsurveyed := surveyed_root h hheaded ht
  have hentry : ∀ {entry i}, i ∈ entryItems entry → ∃ b, i.address = .name entry.1.name :: b := by
    intro entry i hi
    unfold entryItems at hi
    split at hi
    · exact absurd hi List.not_mem_nil
    · rcases mem_sectionItems.1 hi with rfl | ⟨p, -, e', -, rfl⟩
      · exact ⟨[], rfl⟩
      · exact ⟨[p.selector], rfl⟩
  refine List.pairwise_flatMap.2 ⟨fun entry he => ?_, ?_⟩
  · unfold entryItems
    split
    · exact .nil
    · refine List.pairwise_cons.2 ⟨fun i hi => ?_, ?_⟩
      · obtain ⟨p, -, hi⟩ := List.mem_flatMap.1 hi
        obtain ⟨e', -, rfl⟩ := mem_known.1 hi
        exact .above
      · refine List.pairwise_flatMap.2 ⟨fun p _ => ?_, ?_⟩
        · unfold known
          split
          · exact .nil
          · exact List.pairwise_singleton _ _
        · refine (precedes_members h hheaded ht he).imp fun hpq i hi j hj => ?_
          obtain ⟨e', -, rfl⟩ := mem_known.1 hi
          obtain ⟨e'', -, rfl⟩ := mem_known.1 hj
          exact hpq
  · refine hsurveyed.sorted.imp_of_mem fun he hf hbefore i hi j hj => ?_
    obtain ⟨b, hb⟩ := hentry hi
    obtain ⟨b', hb'⟩ := hentry hj
    rw [hb, hb']
    exact .named (a := []) (hsurveyed.known _ he) (hsurveyed.known _ hf) hbefore

end Documents

/-! ### The first misfit -/

/-- A document is refused for its first item that does not fit, with a report that points at the
piece of the text where that item is found. -/
structure RefusedFor (text : String) (c : Chart) (es : List Entry) (t : Table Value) (a : Address)
    (e : Expected) (v : Value) (before body after : List Char) : Prop where
  item : IsItem t a e v
  misfit : ¬Fits e v
  first : ∀ a' e' v', IsItem t a' e' v' → ¬Fits e' v' → a' ≠ a →
    Precedes c es a a' ∧ ¬Precedes c es a' a
  located : ∀ s, Located c es a s ↔ s = ⟨body ++ after, after⟩
  pieces : text.toList = before ++ (body ++ after)
  reported : ∃ line column content marks, PointsAt before body after line column content marks ∧
    parse text = .error (.config (reportText line column content marks
      (Mismatch.reason ⟨v, e, ⟨body ++ after, after⟩⟩)))

section Reports

variable {text : String} {t : Table Value} {b : Address} {e : Expected} {w : Value}

/-- A document with an item that does not fit is refused for the first one. -/
theorem parse_reports_first_misfit (h : document? text.toList = some t) (hb : IsItem t b e w)
    (hnot : ¬Fits e w) :
    ∃ ss es hs a e' v before body after, statements? text.toList = some ss ∧
      TextLists text es hs ∧ RefusedFor text (chart ss) es t a e' v before body after := by
  obtain ⟨ss, es, hs, d, rest, hss, hlists, rfl, hkept⟩ := document?_kept h
  obtain ⟨rest', hreached, hheaded⟩ := chart_traced (statements?_stand hss) List.suffix_rfl
  have ht := document?_proper h
  obtain ⟨front, i, back, hitems, hfront, hi, herror⟩ := ofTable_stops hb hnot
  have hmem : i ∈ items d.root := by simp [hitems]
  have hsorted := precedes_items hkept hheaded ht
  have hlocated := located_of_mem hkept hheaded ht hmem
  have htexts : ∀ e ∈ es, e.2 <:+ text.toList := fun e he =>
    (hlists.suffix e he).trans (withoutMark_suffix _)
  obtain ⟨⟨before, hbefore⟩, ⟨body, hbody⟩, -⟩ := hlocated.within ⟨rest', hreached, hheaded⟩ htexts
  have hspan : i.span = ⟨body ++ i.span.stop, i.span.stop⟩ := by rw [hbody]
  generalize i.span.stop = after at hspan hbody
  rw [← hbody] at hbefore
  rw [hspan] at hlocated
  refine ⟨ss, es, hs, i.address, i.expected, i.value, before, body, after, hss, hlists, ?_⟩
  refine ⟨isItem_of_mem ht hmem, hi, ?_, fun s => ⟨fun hs => ?_, fun hs => hs ▸ hlocated⟩,
    hbefore.symm, ?_⟩
  · intro a' e' v' hitem hmisfit hne
    obtain ⟨j, hj, rfl, rfl, rfl⟩ := exists_item hitem
    rw [hitems] at hj hsorted
    rcases List.mem_append.1 hj with hj | hj
    · exact absurd (hfront j hj) hmisfit
    · rcases List.mem_cons.1 hj with rfl | hj
      · exact absurd rfl hne
      · have hlate := (List.pairwise_cons.1 (List.pairwise_append.1 hsorted).2.1).1 j hj
        exact ⟨hlate, hlate.asymm hkept.contains.named hkept.contains.once (chart_rootless ss)⟩
  · exact hs.unique hkept.contains.named hkept.contains.once (chart_rootless ss) hlocated
  · obtain ⟨line, column, content, marks, hpoints, hreport⟩ :=
      report_points before body after (Mismatch.reason ⟨i.value, i.expected, i.span⟩)
    refine ⟨line, column, content, marks, hpoints, ?_⟩
    rw [← hspan, ← hreport, hbefore, ← hspan, parse_eq h, herror]
    rfl

/-- A document with a port that is no number. -/
theorem parse_reports_client_port : ∃ t ss es hs a e v before body after,
    document? "[client]\nport = true".toList = some t ∧
      statements? "[client]\nport = true".toList = some ss ∧
      TextLists "[client]\nport = true" es hs ∧
      RefusedFor "[client]\nport = true" (chart ss) es t a e v before body after := by
  have hdocument : ∃ t s, document? "[client]\nport = true".toList = some t ∧
      valueAt? [.name "client", .name "port"] (.table t) = some (.scalar (.boolean true) s) :=
    ⟨_, _, rfl, rfl⟩
  obtain ⟨t, s, h, hv⟩ := hdocument
  have hitem : IsItem t [.name "client", .name "port"] .u16 (.scalar (.boolean true) s) :=
    .field (e := .clientSection) (by decide) (by decide) hv
  have hnot : ¬Fits .u16 (.scalar (.boolean true) s) := by
    rintro ⟨n, hn, -⟩
    cases hn
  obtain ⟨ss, es, hs, a, e, v, before, body, after, hss, hlists, hrefused⟩ :=
    parse_reports_first_misfit h hitem hnot
  exact ⟨t, ss, es, hs, a, e, v, before, body, after, h, hss, hlists, hrefused⟩

/-- A table that a longer header passes is visited where its own header opens it, even if its name is
the first of all. The marks of a header reach on to what is assigned under it, and those of a value of
several lines are too many behind a character of two bytes. -/
theorem parse_reports_reopened_section_late :
    (∃ ss t s, statements? "[rpc.x]\n[client]\nport = true\n[rpc]\nport = false".toList = some ss ∧
      document? "[rpc.x]\n[client]\nport = true\n[rpc]\nport = false".toList = some t ∧
      ss.map (fun s => (Statement.keys s).map Key.name) =
        [["rpc", "x"], ["client"], ["port"], ["rpc"], ["port"]] ∧
      IsItem t [.name "rpc", .name "port"] .u16 (.scalar (.boolean false) s) ∧
      ¬Fits .u16 (.scalar (.boolean false) s) ∧
      parse "[rpc.x]\n[client]\nport = true\n[rpc]\nport = false" =
        .error (.config (reportText 3 8 "port = true".toList 4
          "invalid type: boolean `true`, expected u16")) ∧
      parse "[rpc.x]\n[client]\nport = true\n[rpc]\nport = false" ≠
        .error (.config (reportText 5 8 "port = false".toList 5
          "invalid type: boolean `false`, expected u16"))) ∧
    (∃ ss t u, statements? "[rpc.enabled] # note\nx = 1".toList = some ss ∧
      document? "[rpc.enabled] # note\nx = 1".toList = some t ∧
      IsItem t [.name "rpc", .name "enabled"] .boolean (.table u) ∧
      (ss.head?.bind Statement.span?).map Span.text = some "[rpc.enabled]".toList ∧
      parse "[rpc.enabled] # note\nx = 1" =
        .error (.config (reportText 1 1 "[rpc.enabled] # note".toList 20
          "invalid type: map, expected a boolean")) ∧
      parse "[rpc.enabled] # note\nx = 1" ≠
        .error (.config (reportText 1 1 "[rpc.enabled] # note".toList 13
          "invalid type: map, expected a boolean"))) ∧
    ∃ t v, document? "client = \x7b 'é' = 1, port = [\n1] \x7d".toList = some t ∧
      IsItem t [.name "client", .name "port"] .u16 v ∧ v.span?.map Span.text = some "[\n1]".toList ∧
      parse "client = \x7b 'é' = 1, port = [\n1] \x7d" =
        .error (.config (reportText 1 28 "client = \x7b 'é' = 1, port = [".toList 2
          "invalid type: sequence, expected u16")) ∧
      parse "client = \x7b 'é' = 1, port = [\n1] \x7d" ≠
        .error (.config (reportText 1 28 "client = \x7b 'é' = 1, port = [".toList 1
          "invalid type: sequence, expected u16")) := by
  have hother : ∀ {text : String} {m m' : String}, parse text = .error (.config m) → m ≠ m' →
      parse text ≠ .error (.config m') := by
    intro text m m' h hne h'
    rw [h] at h'
    exact hne (Failure.config.inj (Except.error.inj h'))
  refine ⟨?_, ?_, ?_⟩
  · refine ⟨_, _, _, rfl, rfl, rfl, .field (e := .rpcSection) (by decide) (by decide) rfl, ?_, rfl,
      hother rfl (by decide)⟩
    rintro ⟨n, hn, -⟩
    cases hn
  · exact ⟨_, _, _, rfl, rfl, .field (e := .rpcSection) (by decide) (by decide) rfl, rfl, rfl,
      hother rfl (by decide)⟩
  · exact ⟨_, _, rfl, .field (e := .clientSection) (by decide) (by decide) rfl, rfl, rfl,
      hother rfl (by decide)⟩

end Reports

end MemberRelay.Proofs
