import MemberRelay.Proofs.Settings.Overlay
import MemberRelay.Proofs.Toml.Sectioned
import MemberRelay.Settings.Template

/-!
# Renderings of settings

Settings can be written as a document in many ways, and each of them reads back as these settings.
What no document holds are more seconds than an integer of 64 bits with a sign.
-/

namespace MemberRelay.Proofs
open Toml Settings

def rpcPairs (s : RpcSettings) : List (String × Scalar) :=
  [("enabled", .boolean s.enabled), ("listen_address", .string s.listenAddress),
    ("port", .integer s.port.toNat)]

def clientPairs (s : ClientSettings) : List (String × Scalar) :=
  [("port", .integer s.port.toNat), ("connect_timeout_secs", .integer s.connectTimeoutSecs.toNat)]

def settingsFields (s : Settings) : List SectionField :=
  inSection "rpc" (rpcPairs s.rpc) ++ inSection "client" (clientPairs s.client)

/-- The sections of settings in any order, each with its fields in any order. -/
def Arranges (s : Settings) (secs : List (String × List (String × Scalar))) : Prop :=
  ∃ rpc client, rpc.Perm (rpcPairs s.rpc) ∧ client.Perm (clientPairs s.client) ∧
    secs.Perm [("rpc", rpc), ("client", client)]

/-- The lines of a rendering: sections under headers, fields by dotted keys, or sections in braces. -/
inductive Layout (s : Settings) : List Line → Prop where
  | headed {secs : List (String × List (String × Scalar))} (h : Arranges s secs) :
      Layout s (headed secs)
  | pointed {fs : List SectionField} (h : fs.Perm (settingsFields s)) : Layout s (pointed fs)
  | inBraces {secs : List (String × List (String × Scalar))} (h : Arranges s secs) :
      Layout s (inBraces secs)

/-- A text has the lines of a rendering, and empty lines and comments anywhere. -/
def Renders (s : Settings) (text : String) : Prop := ∃ ls, Layout s ls ∧ SpellsLines ls text.toList

/-! ### Layouts -/

section Layouts

variable {s : Settings} {secs : List (String × List (String × Scalar))} {ls : List Line}
  {fs : List SectionField} {root : Table Value}

lemma storable_settingsFields (hsecs : s.client.connectTimeoutSecs.toNat ≤ 9223372036854775807) :
    ∀ f ∈ settingsFields s, Storable f.value := by
  have hrpc := s.rpc.port.toNat_lt
  have hclient := s.client.port.toNat_lt
  simp only [settingsFields, inSection, rpcPairs, clientPairs, List.map_cons, List.map_nil,
    List.cons_append, List.nil_append, List.forall_mem_cons, Storable]
  refine ⟨by simp, by simp, ?_, ?_, ?_, by simp⟩
  · rintro n ⟨⟩
    omega
  · rintro n ⟨⟩
    omega
  · rintro n ⟨⟩
    omega

lemma Arranges.fields (h : Arranges s secs) : (fieldsOf secs).Perm (settingsFields s) := by
  obtain ⟨rpc, client, hrpc, hclient, hsecs⟩ := h
  have hflat : (fieldsOf secs).Perm (inSection "rpc" rpc ++ inSection "client" client) := by
    simpa [fieldsOf] using hsecs.flatMap_right fun sec => inSection sec.1 sec.2
  exact hflat.trans ((hrpc.map _).append (hclient.map _))

lemma Arranges.tidy (h : Arranges s secs) : Tidy secs := by
  obtain ⟨rpc, client, hrpc, hclient, hsecs⟩ := h
  refine ⟨?_, ?_⟩
  · rw [(hsecs.map _).nodup_iff]
    simp
  · intro sec hsec
    have hmem := hsecs.mem_iff.1 hsec
    simp only [List.mem_cons, List.not_mem_nil, or_false] at hmem
    rcases hmem with rfl | rfl
    · rw [(hrpc.map _).nodup_iff]
      simp [rpcPairs]
    · rw [(hclient.map _).nodup_iff]
      simp [clientPairs]

/-- The lines of a rendering give the fields of the settings. -/
lemma Layout.gives (h : Layout s ls) :
    ∃ o fs, Gives o [] [] [] ls fs ∧ fs.Perm (settingsFields s) := by
  cases h with
  | headed h =>
    exact ⟨_, _, gives_headed h.tidy (by simp) (by simp), h.fields⟩
  | @pointed fs h =>
    have hnodup : (([] ++ fs).map fun f : SectionField => (f.sectionName, f.name)).Nodup := by
      rw [List.nil_append, (h.map _).nodup_iff]
      simp [settingsFields, inSection, rpcPairs, clientPairs]
    exact ⟨_, _, gives_pointed hnodup, h⟩
  | inBraces h =>
    exact ⟨_, _, gives_inBraces h.tidy (by simp), h.fields⟩

lemma Arranges.storable (h : Arranges s secs)
    (hstorable : ∀ f ∈ settingsFields s, Storable f.value) :
    ∀ sec ∈ secs, ∀ p ∈ sec.2, Storable p.2 := by
  intro sec hsec p hp
  have hmem : ⟨sec.1, p.1, p.2⟩ ∈ fieldsOf secs :=
    List.mem_flatMap.2 ⟨sec, hsec, List.mem_map_of_mem hp⟩
  exact hstorable _ (h.fields.mem_iff.1 hmem)

lemma Layout.fits (h : Layout s ls) (hstorable : ∀ f ∈ settingsFields s, Storable f.value) :
    ∀ l ∈ ls, l.Fits := by
  intro l hl
  cases h with
  | headed h =>
    obtain ⟨sec, hsec, hl⟩ := List.mem_flatMap.1 hl
    rcases List.mem_cons.1 hl with rfl | hl
    · trivial
    · obtain ⟨p, hp, rfl⟩ := List.mem_map.1 hl
      exact ⟨by simp [depthLimit], h.storable hstorable sec hsec p hp⟩
  | pointed h =>
    obtain ⟨f, hf, rfl⟩ := List.mem_map.1 hl
    exact ⟨by simp [depthLimit], hstorable f (h.mem_iff.1 hf)⟩
  | inBraces h =>
    obtain ⟨sec, hsec, rfl⟩ := List.mem_map.1 hl
    exact ⟨h.storable hstorable sec hsec, h.tidy.fields sec hsec⟩

/-- The table of a rendering has every field in its section. -/
lemma document?_of_renders {text : String} (h : Renders s text)
    (hstorable : ∀ f ∈ settingsFields s, Storable f.value) :
    ∃ root, document? text.toList = some root ∧ ∀ f ∈ settingsFields s, ∃ t span,
      root.find? f.sectionName = some (.table t) ∧ t.find? f.name = some (.scalar f.value span) := by
  obtain ⟨ls, hlayout, hlines⟩ := h
  obtain ⟨ss, hss, hstates⟩ := statements?_lines hlines (hlayout.fits hstorable)
  obtain ⟨o, fs, hgives, hperm⟩ := hlayout.gives
  have hempty : Shows o [] [] (Table.empty .header) := ⟨fun _ _ => rfl, nofun, nofun⟩
  obtain ⟨d, hd, opened, hshows⟩ :=
    hgives.build (d := ⟨Table.empty .header, []⟩) hstates rfl hempty rfl
  refine ⟨d.root, ?_, fun f hf => hshows.find? (hperm.mem_iff.2 hf)⟩
  rw [document?, hss]
  simp only [Option.bind_eq_bind, Option.bind_some, ofStatements?, hd, Option.map_some]

end Layouts

/-! ### Reading back -/

section Reading

variable {s : Settings} {root t : Table Value} {v : Value} {n k : String}

lemma field?_table (names : List String) (hsection : root.find? n = some (.table t))
    (hfield : t.find? k = some v) :
    field? names (root.find? n) k = some v := by
  rw [field?, hsection, Option.bind_some, sectionField, hfield]

theorem parse_of_renders {text : String} (h : Renders s text)
    (hsecs : s.client.connectTimeoutSecs.toNat ≤ 9223372036854775807) : parse text = .ok s := by
  obtain ⟨root, hdocument, hfields⟩ := document?_of_renders h (storable_settingsFields hsecs)
  simp only [settingsFields, inSection, rpcPairs, clientPairs, List.map_cons, List.map_nil,
    List.cons_append, List.nil_append, List.forall_mem_cons] at hfields
  obtain ⟨⟨rpc, e, hrpc, henabled⟩, ⟨_, a, hrpc', haddress⟩, ⟨_, p, hrpc'', hport⟩,
    ⟨client, d, hclient, hdial⟩, ⟨_, c, hclient', hseconds⟩, -⟩ := hfields
  cases hrpc.symm.trans hrpc'
  cases hrpc.symm.trans hrpc''
  cases hclient.symm.trans hclient'
  have henabled' := field?_table rpcFields hrpc henabled
  have haddress' := field?_table rpcFields hrpc haddress
  have hport' := field?_table rpcFields hrpc hport
  have hdial' := field?_table clientFields hclient hdial
  have hseconds' := field?_table clientFields hclient hseconds
  have hports := s.rpc.port.toNat_lt
  have hdials := s.client.port.toNat_lt
  rw [parse_eq_ok_iff hdocument]
  refine ⟨⟨⟨?_, ?_, ?_, ?_⟩, ⟨?_, ?_, ?_⟩⟩, ⟨⟨?_, ?_, ?_⟩, ⟨?_, ?_⟩⟩⟩
  · simp [hrpc, IsSection]
  · simp [henabled', IsBoolean, plain]
  · simp [haddress', IsString, plain]
  · simp [hport', IsPort, plain]
    omega
  · simp [hclient, IsSection]
  · simp [hdial', IsPort, plain]
    omega
  · simp [hseconds', IsSeconds, plain]
  · simp [henabled', Takes, plain]
  · simp [haddress', Takes, plain]
  · simp [hport', Takes, plain]
  · simp [hdial', Takes, plain]
  · simp [hseconds', Takes, plain]

/-- The integers of a document bound the seconds. -/
lemma secs_le_of_parse {text : String} (h : parse text = .ok s) :
    s.client.connectTimeoutSecs.toNat ≤ 9223372036854775807 := by
  obtain ⟨t, ht⟩ := exists_document_of_parse h
  have htakes := ((parse_eq_ok_iff ht).1 h).2.client.connectTimeoutSecs
  cases hfield : field? clientFields (t.find? "client") "connect_timeout_secs" with
  | none =>
    rw [hfield] at htakes
    have hdefault : (s.client.connectTimeoutSecs.toNat : Int) = 10 := Scalar.integer.inj htakes
    omega
  | some x =>
    rw [hfield] at htakes
    obtain ⟨client, hclient, hx⟩ := Option.bind_eq_some_iff.1 hfield
    have hproper := proper_sectionField ((document?_proper ht).find? hclient) hx
    obtain ⟨span, rfl⟩ := plain_eq_some_iff.1 htakes
    cases hproper with
    | scalar fits => exact Int.ofNat_le.1 (fits _ rfl).2

end Reading

/-! ### Writing -/

section Writing

lemma exists_renders (s : Settings) : ∃ text, Renders s text := by
  have hlines : ∀ l ∈ headed [("rpc", rpcPairs s.rpc), ("client", clientPairs s.client)],
      ∃ t, SpellsLine l t := by
    obtain ⟨enabled, henabled⟩ := exists_spellsBoolean s.rpc.enabled
    obtain ⟨address, haddress⟩ := exists_spellsString s.rpc.listenAddress
    simp only [headed, rpcPairs, clientPairs, List.flatMap_cons, List.flatMap_nil, List.map_cons,
      List.map_nil, List.cons_append, List.nil_append, List.forall_mem_cons]
    refine ⟨⟨_, spellsLine_header (by decide)⟩,
      ⟨_, .pair (spellsPair_spaced (by decide) henabled)⟩,
      ⟨_, .pair (spellsPair_spaced (by decide) haddress)⟩,
      ⟨_, .pair (spellsPair_spaced (by decide) (.integer _))⟩,
      ⟨_, spellsLine_header (by decide)⟩, ⟨_, .pair (spellsPair_spaced (by decide) (.integer _))⟩,
      ⟨_, .pair (spellsPair_spaced (by decide) (.integer _))⟩, by simp⟩
  obtain ⟨cs, hcs⟩ := exists_spellsLines hlines
  refine ⟨String.ofList cs, _, .headed ⟨_, _, .refl _, .refl _, .refl _⟩, ?_⟩
  rwa [String.toList_ofList]

lemma toList_template :
    template.toList = templateLines.flatMap fun l => l.toList ++ ['\n'] := by
  rw [template, String.toList_join, List.flatMap_map]
  simp only [String.toList_append]
  rfl

lemma renders_template : Renders {} template := by
  have htext : SpellsText "127.0.0.1".toList "127.0.0.1".toList := spellsText_plain (by decide)
  have haddress : SpellsScalar (.string "127.0.0.1") "\"127.0.0.1\"".toList := .string htext
  refine ⟨headed [("rpc", rpcPairs {}), ("client", clientPairs {})],
    .headed ⟨_, _, .refl _, .refl _, .refl _⟩, ?_⟩
  rw [toList_template]
  simp only [templateLines, List.flatMap_cons, List.flatMap_nil, List.append_assoc,
    List.singleton_append]
  refine .feed (spellsLine_header (n := "rpc") (by decide)) ?_
  refine .aside (remark_note (by decide)) ?_
  refine .feed (.pair (spellsPair_spaced (n := "enabled") (by decide) .yes)) ?_
  refine .aside (remark_note (by decide)) ?_
  refine .feed (.pair (spellsPair_spaced (n := "listen_address") (by decide) haddress)) ?_
  refine .feed (.pair (spellsPair_spaced (n := "port") (by decide) (.integer 50051))) ?_
  refine .aside (.blanks blanks_nil) ?_
  refine .feed (spellsLine_header (n := "client") (by decide)) ?_
  refine .aside (remark_note (by decide)) ?_
  refine .feed (.pair (spellsPair_spaced (n := "port") (by decide) (.integer 50051))) ?_
  refine .aside (remark_note (by decide)) ?_
  have hseconds := spellsPair_spaced (n := "connect_timeout_secs") (by decide) (.integer 10)
  exact .feed (.pair hseconds) .done

end Writing

/-- Every rendering of settings reads as these settings if an integer of 64 bits with a sign holds
the seconds. All settings can be written, and those with more seconds come from no text at all. -/
theorem renderings_read_back (s : Settings) :
    (s.client.connectTimeoutSecs.toNat ≤ 9223372036854775807 →
      ∀ text, Renders s text → parse text = .ok s) ∧
    (∃ text, Renders s text) ∧
    ((∃ text, parse text = .ok s) ↔ s.client.connectTimeoutSecs.toNat ≤ 9223372036854775807) := by
  refine ⟨?_, exists_renders s, ?_, ?_⟩
  · exact fun hsecs text h => parse_of_renders h hsecs
  · rintro ⟨text, h⟩
    exact secs_le_of_parse h
  · intro hsecs
    obtain ⟨text, h⟩ := exists_renders s
    exact ⟨text, parse_of_renders h hsecs⟩

/-- Sections in braces, the last one first, with an escape, a comment and both line ends. -/
theorem braces_read_back :
    let s : Settings :=
      { rpc := { enabled := false, listenAddress := "\"\x00", port := 7000 }
        client := { port := 7001, connectTimeoutSecs := 3 } }
    let text := "client=\x7bport = 7001,connect_timeout_secs = 3\x7d#\r\n" ++
      "rpc=\x7bport = 7000,listen_address = \"\\\"\\u0000\",enabled = false\x7d\n"
    s.client.connectTimeoutSecs.toNat ≤ 9223372036854775807 ∧ Renders s text ∧
      parse text = .ok s := by
  intro s text
  have hsecs : s.client.connectTimeoutSecs.toNat ≤ 9223372036854775807 := by decide
  have hquote : SpellsChar '"' ['\\', '"'] := .letter (by decide)
  have hnull : SpellsChar '\x00' ['\\', 'u', '0', '0', '0', '0'] := .four rfl (by decide) rfl
  have htext : SpellsText "\"\x00".toList "\\\"\\u0000".toList :=
    .cons hquote (.cons hnull .nil)
  have haddress : SpellsScalar (.string "\"\x00") "\"\\\"\\u0000\"".toList := .string htext
  have hclient : SpellsPairs (clientPairs s.client)
      "port = 7001,connect_timeout_secs = 3\x7d".toList :=
    .next (spellsPair_spaced (n := "port") (by decide) (.integer 7001)) blanks_nil
      (.last (spellsPair_spaced (n := "connect_timeout_secs") (by decide) (.integer 3))
        blanks_nil)
  have hrpc : SpellsPairs (rpcPairs s.rpc).reverse
      "port = 7000,listen_address = \"\\\"\\u0000\",enabled = false\x7d".toList :=
    .next (spellsPair_spaced (n := "port") (by decide) (.integer 7000)) blanks_nil
      (.next (spellsPair_spaced (n := "listen_address") (by decide) haddress) blanks_nil
        (.last (spellsPair_spaced (n := "enabled") (by decide) .no) blanks_nil))
  have hrenders : Renders s text := by
    refine ⟨inBraces [("client", clientPairs s.client), ("rpc", (rpcPairs s.rpc).reverse)],
      .inBraces ⟨_, _, List.reverse_perm _, .refl _, .swap _ _ _⟩, ?_⟩
    rw [String.toList_append]
    refine .line (.braces (spellsKey_bare (n := "client") (by decide)) blanks_nil hclient)
      (remark_note (r := []) rfl) (.both _) ?_
    exact .feed (.braces (spellsKey_bare (n := "rpc") (by decide)) blanks_nil hrpc) .done
  exact ⟨hsecs, hrenders, (renderings_read_back s).1 hsecs text hrenders⟩

end MemberRelay.Proofs
