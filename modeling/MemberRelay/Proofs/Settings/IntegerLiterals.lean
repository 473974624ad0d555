import MemberRelay.Proofs.Settings.KnownFields
import MemberRelay.Proofs.Toml.Integers
import MemberRelay.Proofs.Toml.Report

/-!
# Integers in settings

Where the settings have an integer for a field, any spelling of an integer may stand. It counts as that
integer, which is refused as out of range, with a report that gives it in decimal, or else is what the
settings hold for the field. What 64 bits do not hold, and what spells no integer, makes the text no
document.
-/

namespace MemberRelay.Proofs
open Toml Settings

namespace KnownField

/-- The numbers that a field for integers can hold. -/
def Holds (f : KnownField) (n : Int) : Prop := 0 ≤ n ∧ (f.expected = .u16 → n ≤ 65535)

/-- Settings with another integer in a field. -/
def put : KnownField → Settings → Int → Settings
  | rpcPort, s, n => { s with rpc := { s.rpc with port := n.toNat.toUInt16 } }
  | clientPort, s, n => { s with client := { s.client with port := n.toNat.toUInt16 } }
  | connectTimeoutSecs, s, n =>
    { s with client := { s.client with connectTimeoutSecs := n.toNat.toUInt64 } }
  | _, s, _ => s

/-- The digit `0`, between two pieces of a text, is what the document of the text holds for a
field. -/
structure GivesZero (f : KnownField) (before after : List Char) (t : Table Value) : Prop where
  document : document? (before ++ '0' :: after) = some t
  value : f.value? t = some (.scalar (.integer 0) ⟨'0' :: after, after⟩)

end KnownField

/-- Two documents that hold the same for the sections and fields, but for an integer. -/
structure DifferIn (f : KnownField) (n : Int) (span : Span) (t t' : Table Value) : Prop where
  zero : ∃ sp, f.value? t = some (.scalar (.integer 0) sp)
  here : f.value? t' = some (.scalar (.integer n) span)
  others : ∀ g, g ≠ f → (g.value? t').map plain = (g.value? t).map plain
  sections : ∀ name, (t'.find? name).map plain = (t.find? name).map plain

/-- The settings of a text with a literal between two pieces. -/
def parseWith (before lit after : List Char) : Except Failure Settings :=
  parse (String.ofList (before ++ (lit ++ after)))

/-- A literal between two pieces of a text counts as an integer for a field. -/
structure CountsAs (f : KnownField) (before lit after : List Char) (n : Int) : Prop where
  malformed : document? (before ++ (lit ++ after)) = none ↔ ¬FitsInt64 n
  read : FitsInt64 n → ∃ t, document? (before ++ (lit ++ after)) = some t ∧
    f.value? t = some (.scalar (.integer n) ⟨lit ++ after, after⟩)
  accepted : FitsInt64 n → ∀ s, parseWith before lit after = .ok s ↔
    f.Holds n ∧ f.get s = .integer n ∧ ∃ s₀, parseWith before ['0'] after = .ok s₀ ∧ s = f.put s₀ n
  reported : FitsInt64 n → ¬f.Holds n → ∀ s₀, parseWith before ['0'] after = .ok s₀ →
    ∃ line column content marks, PointsAt before lit after line column content marks ∧
      parseWith before lit after = .error (.config (reportText line column content marks
        s!"invalid value: integer `{n}`, expected {f.expected.text}"))

/-! ### Fields of settings -/

section Settings

variable {f g : KnownField} {n : Int} {s : Settings} {span : Span}

lemma KnownField.get_put (hf : f.expected.isInteger) (hn : f.Holds n) (hfits : FitsInt64 n) :
    f.get (f.put s n) = .integer n := by
  obtain ⟨hlow, hport⟩ := hn
  have hnat : (n.toNat : Int) = n := Int.toNat_of_nonneg hlow
  have hshort : n ≤ 65535 → (n.toNat.toUInt16.toNat : Int) = n := by
    intro hbound
    have hlt : n.toNat < UInt16.size := by
      change n.toNat < 65536
      omega
    rw [UInt16.toNat_ofNat_of_lt' hlt, hnat]
  cases f with
  | enabled => cases hf
  | listenAddress => cases hf
  | rpcPort => exact congrArg Scalar.integer (hshort (hport rfl))
  | clientPort => exact congrArg Scalar.integer (hshort (hport rfl))
  | connectTimeoutSecs =>
    have hsize : UInt64.size = 18446744073709551616 := rfl
    have hhigh := hfits.2
    have hlt : n.toNat < UInt64.size := by omega
    exact congrArg Scalar.integer (by rw [KnownField.put, UInt64.toNat_ofNat_of_lt' hlt, hnat])

lemma KnownField.get_put_ne (h : g ≠ f) : g.get (f.put s n) = g.get s := by
  cases f <;> cases g <;> first | rfl | exact absurd rfl h

lemma KnownField.accepts_integer_iff (hf : f.expected.isInteger) :
    f.Accepts (.scalar (.integer n) span) ↔ f.Holds n := by
  have hplain : ∀ m, plain (.scalar (.integer n) span) = some (.integer m) ↔ m = n := by
    intro m
    simp [plain, eq_comm]
  cases f with
  | enabled => cases hf
  | listenAddress => cases hf
  | connectTimeoutSecs =>
    simp [KnownField.Accepts, IsSeconds, hplain, KnownField.Holds, KnownField.expected]
  | _ => simp [KnownField.Accepts, IsPort, hplain, KnownField.Holds, KnownField.expected]

end Settings

/-! ### Another integer in a document -/

section Documents

variable {f g : KnownField} {n : Int} {s : Settings} {v w : Value} {span : Span} {t t' : Table Value}
  {r : Revision} {a b : Address} {c : Selector} {x : Scalar} {names : List String} {name : String}
  {i : Visited}

lemma sectionField_value :
    sectionField names name (r.value w) = (sectionField names name w).map r.value := by
  cases w with
  | scalar => rw [Revision.value_scalar]; rfl
  | array items span => rw [Revision.value_array, sectionField, sectionField, List.getElem?_map]
  | table t => rw [Revision.value_table, sectionField, sectionField, Revision.table_find?]
  | tables ts =>
    rw [Revision.value_tables, sectionField, sectionField, List.getElem?_map, Option.map_map,
      Option.map_map]
    exact congrArg (fun g => ts[names.idxOf name]?.map g) (funext fun _ => r.value_table.symm)

lemma KnownField.value?_revision : f.value? (r.table t) = (f.value? t).map r.value := by
  rw [KnownField.value?, KnownField.value?, field?, field?, Revision.table_find?]
  cases t.find? f.home with
  | none => rfl
  | some w => exact sectionField_value

lemma plain_value (h : Replaces r t a x span) (hb : b ≠ a) (hv : valueAt? b (.table t) = some v) :
    plain (r.value v) = plain v := by
  cases v with
  | scalar s sp =>
    rw [Revision.value_scalar]
    exact congrArg some (h.elsewhere b s sp hb hv)
  | _ => simp [plain]

/-- An integer in the place of a field changes that field alone. -/
lemma differIn_of_replaces (hc : f.IsAt c) {sp : Span}
    (hzero : f.value? t = some (.scalar (.integer 0) sp))
    (hv : valueAt? [.name f.home, c] (.table t) = some (.scalar (.integer 0) sp))
    (h : Replaces r t [.name f.home, c] (.integer n) span) : DifferIn f n span t (r.table t) where
  zero := ⟨sp, hzero⟩
  here := by
    have hhere := h.here
    rw [← Revision.value_table, Revision.valueAt?_value, hv] at hhere
    rw [KnownField.value?_revision, hzero]
    exact hhere
  others g hg := by
    rw [KnownField.value?_revision]
    cases hvalue : g.value? t with
    | none => rfl
    | some v =>
      obtain ⟨c', hc', hv'⟩ := KnownField.exists_selector hvalue
      have hne : [Selector.name g.home, c'] ≠ [.name f.home, c] := by
        intro heq
        simp only [List.cons.injEq, Selector.name.injEq, and_true] at heq
        obtain ⟨hhome, rfl⟩ := heq
        exact hg (hc'.unique hc hhome)
      exact congrArg some (plain_value h hne hv')
  sections name := by
    rw [Revision.table_find?]
    cases hfind : t.find? name with
    | none => rfl
    | some v =>
      have hne : [Selector.name name] ≠ [.name f.home, c] := by simp
      exact congrArg some (plain_value h hne (valueAt?_name.trans hfind))

lemma IsSection.congr (x y : Value) (h : plain x = plain y) (hx : IsSection x) : IsSection y := by
  cases y with
  | scalar s span =>
    obtain ⟨span', rfl⟩ := plain_eq_some_iff.1 h
    cases s with
    | moment => trivial
    | _ => exact hx
  | _ => trivial

variable (h : DifferIn f n span t t')
include h

lemma DifferIn.isSection_iff : (∀ v, t'.find? name = some v → IsSection v) ↔
    ∀ v, t.find? name = some v → IsSection v :=
  ⟨forall_of_plain IsSection.congr (h.sections name),
    forall_of_plain IsSection.congr (h.sections name).symm⟩

lemma DifferIn.accepts_iff (hg : g ≠ f) : (∀ v, g.value? t' = some v → g.Accepts v) ↔
    ∀ v, g.value? t = some v → g.Accepts v := by
  have hcongr : ∀ x y, plain x = plain y → g.Accepts x → g.Accepts y := fun x y heq hx => hx.congr heq
  exact ⟨forall_of_plain hcongr (h.others g hg), forall_of_plain hcongr (h.others g hg).symm⟩

/-- If all else fits, only the integer can be refused. -/
lemma DifferIn.eq_of_misfit (ht' : Proper (.table t')) (hacceptable : Acceptable t)
    (hi : i ∈ items t') (hnot : ¬i.Fits) :
    i.expected = f.expected ∧ i.value = .scalar (.integer n) span := by
  obtain ⟨hrpc, hclient, hfields⟩ := Proofs.acceptable_iff.1 hacceptable
  rcases (isItem_of_mem ht' hi).known with ⟨name, hname, hvalue⟩ | ⟨g, hvalue, hexpected⟩
  · refine absurd ?_ hnot
    simp only [knownSections, List.mem_cons, Prod.mk.injEq, List.not_mem_nil, or_false] at hname
    rcases hname with ⟨rfl, hexpected⟩ | ⟨rfl, hexpected⟩
    · rw [Visited.Fits, hexpected]
      exact h.isSection_iff.2 hrpc _ hvalue
    · rw [Visited.Fits, hexpected]
      exact h.isSection_iff.2 hclient _ hvalue
  · by_cases hg : g = f
    · subst hg
      rw [h.here] at hvalue
      exact ⟨hexpected.symm, (Option.some.inj hvalue).symm⟩
    · refine absurd ?_ hnot
      rw [Visited.Fits, ← hexpected]
      exact ((h.accepts_iff hg).2 (hfields g) _ hvalue).fits (KnownField.proper ht' hvalue)

variable (hf : f.expected.isInteger)
include hf

lemma DifferIn.acceptable_iff : Acceptable t' ↔ f.Holds n ∧ Acceptable t := by
  obtain ⟨sp, hzero⟩ := h.zero
  rw [Proofs.acceptable_iff, Proofs.acceptable_iff, h.isSection_iff, h.isSection_iff]
  constructor
  · rintro ⟨hrpc, hclient, hfields⟩
    refine ⟨(KnownField.accepts_integer_iff hf).1 (hfields f _ h.here), hrpc, hclient, fun g => ?_⟩
    by_cases hg : g = f
    · subst hg
      intro v hv
      rw [hzero] at hv
      cases hv
      exact (KnownField.accepts_integer_iff hf).2 ⟨le_rfl, fun _ => by decide⟩
    · exact (h.accepts_iff hg).1 (hfields g)
  · rintro ⟨hn, hrpc, hclient, hfields⟩
    refine ⟨hrpc, hclient, fun g => ?_⟩
    by_cases hg : g = f
    · subst hg
      intro v hv
      rw [h.here] at hv
      cases hv
      exact (KnownField.accepts_integer_iff hf).2 hn
    · exact (h.accepts_iff hg).2 (hfields g)

lemma DifferIn.overlays (hn : f.Holds n) (hfits : FitsInt64 n) (hs : Overlays t s) :
    Overlays t' (f.put s n) := by
  rw [overlays_iff] at hs ⊢
  intro g
  by_cases hg : g = f
  · subst hg
    rw [h.here, KnownField.get_put hf hn hfits]
    rfl
  · rw [KnownField.get_put_ne hg]
    exact (hs g).congr (h.others g hg).symm

end Documents

/-! ### Another integer in the settings -/

section Texts

variable {f : KnownField} {before after lit : List Char} {n : Int} {s : Settings} {span : Span}
  {t t' : Table Value}

/-- A document that is refused is refused for an item that does not fit. -/
lemma exists_misfit (h : ∀ s, ofTable t ≠ .ok s) :
    ∃ i ∈ items t, ¬i.Fits ∧ ofTable t = .error i.mismatch := by
  have hvisits := ofTable_visits t
  generalize hr : ofTable t = r at hvisits h ⊢
  generalize items t = is at hvisits ⊢
  cases hvisits with
  | passes => exact absurd rfl (h _)
  | stops _ hi => exact ⟨_, by simp, hi, rfl⟩

lemma parseWith_eq_ok_iff (h : document? (before ++ (lit ++ after)) = some t) :
    parseWith before lit after = .ok s ↔ Acceptable t ∧ Overlays t s :=
  parse_eq_ok_iff (by rwa [String.toList_ofList])

/-- With another integer the settings have it in the place of the digit. -/
lemma DifferIn.parseWith_iff (h : DifferIn f n span t t') (hf : f.expected.isInteger)
    (hfits : FitsInt64 n) (hzero : document? (before ++ '0' :: after) = some t)
    (hdocument : document? (before ++ (lit ++ after)) = some t') :
    parseWith before lit after = .ok s ↔ f.Holds n ∧ f.get s = .integer n ∧
      ∃ s₀, parseWith before ['0'] after = .ok s₀ ∧ s = f.put s₀ n := by
  have hplain : ∀ s, parseWith before ['0'] after = .ok s ↔ Acceptable t ∧ Overlays t s :=
    fun _ => parseWith_eq_ok_iff hzero
  rw [parseWith_eq_ok_iff hdocument, h.acceptable_iff hf]
  constructor
  · rintro ⟨⟨hn, hacceptable⟩, hoverlays⟩
    obtain ⟨s₀, hs₀⟩ := (ofTable_total (document?_proper hzero)).2 hacceptable
    have hs₀ := ofTable_overlays (document?_proper hzero) hs₀
    obtain rfl := hoverlays.unique (h.overlays hf hn hfits hs₀)
    exact ⟨hn, KnownField.get_put hf hn hfits, s₀, (hplain s₀).2 ⟨hacceptable, hs₀⟩, rfl⟩
  · rintro ⟨hn, -, s₀, hs₀, rfl⟩
    obtain ⟨hacceptable, hs₀⟩ := (hplain s₀).1 hs₀
    exact ⟨⟨hn, hacceptable⟩, h.overlays hf hn hfits hs₀⟩

/-- An integer out of range is reported where it stands. -/
lemma DifferIn.reported (h : DifferIn f n ⟨lit ++ after, after⟩ t t') (hf : f.expected.isInteger)
    (hn : ¬f.Holds n) (hacceptable : Acceptable t)
    (hdocument : document? (before ++ (lit ++ after)) = some t') :
    ∃ line column content marks, PointsAt before lit after line column content marks ∧
      parseWith before lit after = .error (.config (reportText line column content marks
        s!"invalid value: integer `{n}`, expected {f.expected.text}")) := by
  have ht' := document?_proper hdocument
  have hrefused : ∀ s, ofTable t' ≠ .ok s := by
    intro s hs
    exact hn ((h.acceptable_iff hf).1 ((ofTable_total ht').1 ⟨s, hs⟩)).1
  obtain ⟨i, hi, hnot, herror⟩ := exists_misfit hrefused
  obtain ⟨hexpected, hvalue⟩ := h.eq_of_misfit ht' hacceptable hi hnot
  have hspan : i.span = ⟨lit ++ after, after⟩ := by
    rw [Visited.span, hvalue]
    rfl
  have hreason : i.mismatch.reason =
      s!"invalid value: integer `{n}`, expected {f.expected.text}" := by
    have hout : i.mismatch.isOutOfRange = true := by
      rw [Visited.mismatch, Mismatch.isOutOfRange, hvalue]
      exact hexpected ▸ hf
    rw [Mismatch.reason, hout, Visited.mismatch, hvalue, hexpected]
    have hself : ∀ s : String, toString s = s := fun _ => rfl
    refine String.ext ?_
    simp [Mismatch.describe, String.toList_append, hself]
  obtain ⟨line, column, content, marks, hpoints, hreport⟩ :=
    report_points before lit after i.mismatch.reason
  refine ⟨line, column, content, marks, hpoints, ?_⟩
  have hsource : document? (String.ofList (before ++ (lit ++ after))).toList = some t' := by
    rwa [String.toList_ofList]
  rw [parseWith, parse_eq hsource, herror, String.toList_ofList, ← hreason, ← hreport, ← hspan]
  rfl

/-- Where a document holds the digit `0` for an integer of the settings, any spelling of an integer
counts as that integer, whatever its base, its sign, its underscores and its length: the text is no
document just if 64 bits do not hold it, the settings have it if the field can hold it, and it is
reported else. With a misplaced underscore, a zero in front of other digits, a sign in front of a base
or no digits, the text is no document. -/
theorem literals_count_as_their_integers (hf : f.expected.isInteger)
    (h : f.GivesZero before after t) (hlit : ResemblesLiteral lit) (hne : lit ≠ []) :
    (∀ n, SpellsLiteral lit n → CountsAs f before lit after n) ∧
    ((∀ n, ¬SpellsLiteral lit n) → document? (before ++ (lit ++ after)) = none) ∧
    (document? (before ++ (lit ++ after)) = none →
      ∃ text, parseWith before lit after = .error (.config text)) := by
  obtain ⟨c, hc, hv⟩ := KnownField.exists_selector h.value
  obtain ⟨hread, hlarge, hother⟩ := document?_literal h.document hv hlit hne
  refine ⟨fun n hspells => ?_, hother, fun hnone => ?_⟩
  · have hdiffer : FitsInt64 n → ∃ t', document? (before ++ (lit ++ after)) = some t' ∧
        DifferIn f n ⟨lit ++ after, after⟩ t t' := by
      intro hfits
      obtain ⟨r, hdocument, hreplaces⟩ := hread n hspells hfits
      exact ⟨r.table t, hdocument, differIn_of_replaces hc h.value hv hreplaces⟩
    refine ⟨⟨fun hnone hfits => ?_, hlarge n hspells⟩, fun hfits => ?_, fun hfits s => ?_,
      fun hfits hn s₀ hs₀ => ?_⟩
    · obtain ⟨t', hdocument, -⟩ := hdiffer hfits
      rw [hnone] at hdocument
      cases hdocument
    · obtain ⟨t', hdocument, hdiffers⟩ := hdiffer hfits
      exact ⟨t', hdocument, hdiffers.here⟩
    · obtain ⟨t', hdocument, hdiffers⟩ := hdiffer hfits
      exact hdiffers.parseWith_iff hf hfits h.document hdocument
    · obtain ⟨t', hdocument, hdiffers⟩ := hdiffer hfits
      have hzero : Acceptable t := ((parseWith_eq_ok_iff h.document).1 hs₀).1
      exact hdiffers.reported hf hn hzero hdocument
  · rw [parseWith, parse, ofToml, String.toList_ofList, hnone]
    exact ⟨_, rfl⟩

/-- A port in base sixteen, one below all ports, and one with two underscores in a row. -/
theorem literals_of_rpc_port :
    (∃ t, KnownField.rpcPort.GivesZero "[rpc]\nport = ".toList ['\n'] t) ∧
    CountsAs .rpcPort "[rpc]\nport = ".toList "0xC3_51".toList ['\n'] 50001 ∧
    parseWith "[rpc]\nport = ".toList "0xC3_51".toList ['\n'] = .ok { rpc := { port := 50001 } } ∧
    CountsAs .rpcPort "[rpc]\nport = ".toList "-1".toList ['\n'] (-1) ∧
    ∃ text, parseWith "[rpc]\nport = ".toList "1__0".toList ['\n'] = .error (.config text) := by
  have hzero : ∃ t, KnownField.rpcPort.GivesZero "[rpc]\nport = ".toList ['\n'] t := ⟨_, rfl, rfl⟩
  obtain ⟨t, h⟩ := id hzero
  have hhex : SpellsLiteral "0xC3_51".toList 50001 := by
    have hletter : ('x', 16) ∈ baseLetters := by decide
    have hdigits : SpellsDigits 16 ['C', '3', '_', '5', '1'] ['C', '3', '5', '1'] :=
      .next (by decide) (.spaced (by decide) (.next (by decide) (.one (by decide))))
    have hspells := SpellsLiteral.based hletter hdigits
    exact hspells
  have hminus : SpellsLiteral "-1".toList (-1) := by
    have hsign : (['-'], true) ∈ signs := by decide
    have hdigits : SpellsDigits 10 ['1'] ['1'] := .one (by decide)
    have hspells := SpellsLiteral.decimal hsign hdigits fun h => absurd h (by decide)
    exact hspells
  have hdouble : ResemblesLiteral "1__0".toList := by
    have hnone : ([], false) ∈ signs := by decide
    have hdigits : ∀ d ∈ ['1', '0'], digitValue d < 10 :=
      List.all_iff_forall_prop.1 (by decide)
    exact .decimal hnone hdigits (by decide)
  have hnot : ∀ n, ¬SpellsLiteral "1__0".toList n := by
    intro n hspells
    have hread : scalar? ("1__0".toList ++ []) = some (.integer 1, "__0".toList) := rfl
    have hended : Ended [] := rfl
    have hwhole := scalar?_of_spells_literal hspells hended
    rw [hread] at hwhole
    split at hwhole <;> cases hwhole
  have hcounts := (literals_count_as_their_integers rfl h hhex.resembles hhex.ne_nil).1 _ hhex
  have hother := (literals_count_as_their_integers rfl h hdouble (by decide)).2
  refine ⟨hzero, hcounts, ?_, ?_, hother.2 (hother.1 hnot)⟩
  · exact (hcounts.accepted (by decide) _).2 ⟨⟨by decide, fun _ => by decide⟩, rfl,
      { rpc := { port := 0 } }, rfl, rfl⟩
  · exact (literals_count_as_their_integers rfl h hminus.resembles hminus.ne_nil).1 _ hminus

end Texts

end MemberRelay.Proofs
