import MemberRelay.Proofs.Settings.Sections
import MemberRelay.Settings.Directory

/-!
# Settings laid over the defaults

The settings of a document are the defaults with the known fields of the document laid over them.
Nothing else in the document counts, and nothing but a known field or section of the wrong kind is
refused.
-/

namespace MemberRelay.Proofs
open Toml Settings

/-! ### What a document says -/

structure Acceptable (t : Table Value) : Prop where
  rpc : RpcFits (t.find? "rpc")
  client : ClientFits (t.find? "client")

/-- Every field of the settings is the document's or the default. -/
structure Overlays (t : Table Value) (s : Settings) : Prop where
  rpc : RpcOverlays (t.find? "rpc") s.rpc
  client : ClientOverlays (t.find? "client") s.client

/-- Two sections, either of which may be missing, that say the same of the known fields: both fail
to be sections or neither does, and the fields have the same content. -/
structure SameSection (fields : List String) (a? b? : Option Value) : Prop where
  isSection : (∀ a, a? = some a → IsSection a) ↔ ∀ b, b? = some b → IsSection b
  content : ∀ name ∈ fields, (field? fields a? name).map plain = (field? fields b? name).map plain

/-- Two documents that say the same of the known fields, in whatever order and among whatever else. -/
structure SameKnown (t t' : Table Value) : Prop where
  rpc : SameSection rpcFields (t.find? "rpc") (t'.find? "rpc")
  client : SameSection clientFields (t.find? "client") (t'.find? "client")

/-! ### Documents -/

section Documents

variable {s s' : Settings} {n : String} {span : Span} {v : Value} {t : Table Value}

lemma assignSection_eq : assignSection =
    fieldThen "rpc" Settings.rpc (fun s r => { s with rpc := r })
      (readSection .rpcSection rpcFields assignRpc)
      (fieldThen "client" Settings.client (fun s c => { s with client := c })
        (readSection .clientSection clientFields assignClient) nothingElse) :=
  rfl

lemma rpc_slot : Slot assignSection "rpc" Settings.rpc
    fun v old r => old = {} → RpcOverlays (some v) r := by
  rw [assignSection_eq]
  refine Slot.here (fun _ _ => rfl) ?_ (Keeps.fieldThen (fun _ _ => rfl) keeps_nothingElse)
  rintro _ span v r hv hr rfl
  exact readRpc_overlays hv hr

lemma client_slot : Slot assignSection "client" Settings.client
    fun v old c => old = {} → ClientOverlays (some v) c := by
  rw [assignSection_eq]
  refine Slot.there (by decide) (fun _ _ => rfl) (Slot.here (fun _ _ => rfl) ?_ keeps_nothingElse)
  rintro _ span v c hv hc rfl
  exact readClient_overlays hv hc

/-- What a document takes under a name. -/
def SectionFits (n : String) (v : Value) : Prop :=
  if n = "rpc" then RpcFits (some v) else if n = "client" then ClientFits (some v) else True

lemma assignSection_total (hv : Proper v) :
    (∃ s', assignSection s n span v = .ok s') ↔ SectionFits n v := by
  rw [assignSection_eq]
  apply fieldThen_total (readRpc_total hv)
  exact fieldThen_total (readClient_total hv) nothingElse_total

lemma ofTable_eq : ofTable t = assignAll assignSection {} (tableFields t) := by
  rw [assignAll, tableFields, List.foldlM_map]
  rfl

lemma ofTable_total (ht : Proper (.table t)) : (∃ s, ofTable t = .ok s) ↔ Acceptable t := by
  have hdistinct := distinct_tableFields ht
  have hrpc : (∀ f ∈ tableFields t, f.1 = "rpc" → RpcFits (some f.2.2)) ↔
      RpcFits (t.find? "rpc") := by
    rw [hdistinct.forall_iff (P := fun v => RpcFits (some v)), lookup_tableFields, rpcFits_iff]
  have hclient : (∀ f ∈ tableFields t, f.1 = "client" → ClientFits (some f.2.2)) ↔
      ClientFits (t.find? "client") := by
    rw [hdistinct.forall_iff (P := fun v => ClientFits (some v)), lookup_tableFields,
      clientFits_iff]
  rw [ofTable_eq, assignAll_total (F := SectionFits)
    (fun _ _ _ _ hv => assignSection_total hv) hdistinct]
  constructor
  · intro h
    refine ⟨hrpc.1 fun f hf hname => ?_, hclient.1 fun f hf hname => ?_⟩
    · simpa [SectionFits, hname] using h f hf
    · simpa [SectionFits, hname] using h f hf
  · intro h f hf
    unfold SectionFits
    split_ifs with h₁ h₂
    · exact hrpc.2 h.rpc f hf h₁
    · exact hclient.2 h.client f hf h₂

lemma ofTable_overlays (ht : Proper (.table t)) (h : ofTable t = .ok s) : Overlays t s := by
  rw [ofTable_eq] at h
  have hdistinct := distinct_tableFields ht
  have hrpc := rpc_slot.becomes hdistinct h
  have hclient := client_slot.becomes hdistinct h
  rw [lookup_tableFields] at hrpc hclient
  refine ⟨?_, ?_⟩
  · cases hfind : t.find? "rpc" with
    | some v =>
      rw [hfind] at hrpc
      exact hrpc rfl
    | none =>
      rw [hfind] at hrpc
      have hdefault : s.rpc = {} := hrpc
      rw [hdefault]
      exact ⟨rfl, rfl, rfl⟩
  · cases hfind : t.find? "client" with
    | some v =>
      rw [hfind] at hclient
      exact hclient rfl
    | none =>
      rw [hfind] at hclient
      have hdefault : s.client = {} := hclient
      rw [hdefault]
      exact ⟨rfl, rfl⟩

lemma Takes.unique {v? : Option Value} {d a b : Scalar} (ha : Takes v? d a) (hb : Takes v? d b) :
    a = b := by
  cases v? with
  | some v => exact Option.some.inj (ha.symm.trans hb)
  | none => exact ha.trans hb.symm

/-- What is laid over the defaults is determined. -/
lemma Overlays.unique (h : Overlays t s) (h' : Overlays t s') : s = s' := by
  have henabled := h.rpc.enabled.unique h'.rpc.enabled
  have haddress := h.rpc.listenAddress.unique h'.rpc.listenAddress
  have hport := h.rpc.port.unique h'.rpc.port
  have hdial := h.client.port.unique h'.client.port
  have hsecs := h.client.connectTimeoutSecs.unique h'.client.connectTimeoutSecs
  rcases s with ⟨⟨_, _, _⟩, ⟨_, _⟩⟩
  rcases s' with ⟨⟨_, _, _⟩, ⟨_, _⟩⟩
  simp only [Scalar.boolean.injEq, Scalar.string.injEq, Scalar.integer.injEq, Int.natCast_inj,
    UInt16.toNat_inj, UInt64.toNat_inj] at henabled haddress hport hdial hsecs
  rw [henabled, haddress, hport, hdial, hsecs]

theorem ofTable_eq_ok_iff (ht : Proper (.table t)) :
    ofTable t = .ok s ↔ Acceptable t ∧ Overlays t s := by
  constructor
  · intro h
    exact ⟨(ofTable_total ht).1 ⟨s, h⟩, ofTable_overlays ht h⟩
  · rintro ⟨hacceptable, hoverlays⟩
    obtain ⟨s', hs'⟩ := (ofTable_total ht).2 hacceptable
    rw [hs', (ofTable_overlays ht hs').unique hoverlays]

end Documents

/-! ### What does not count -/

section SameKnown

variable {a? b? : Option Value}

lemma SameSection.symm {fields : List String} (h : SameSection fields a? b?) :
    SameSection fields b? a? :=
  ⟨h.isSection.symm, fun name hname => (h.content name hname).symm⟩

lemma SameKnown.symm {t t' : Table Value} (h : SameKnown t t') : SameKnown t' t :=
  ⟨h.rpc.symm, h.client.symm⟩

/-- What is decided by the content holds of the other field as well. -/
lemma forall_of_plain {P : Value → Prop} (hP : ∀ x y, plain x = plain y → P x → P y)
    (h : a?.map plain = b?.map plain) (ha : ∀ x, a? = some x → P x) : ∀ y, b? = some y → P y := by
  rintro y rfl
  obtain ⟨x, hx, hplain⟩ := Option.map_eq_some_iff.1 h
  exact hP x y hplain (ha x hx)

lemma IsBoolean.congr (x y : Value) (h : plain x = plain y) (hx : IsBoolean x) : IsBoolean y := by
  unfold IsBoolean
  rwa [← h]

lemma IsString.congr (x y : Value) (h : plain x = plain y) (hx : IsString x) : IsString y := by
  unfold IsString
  rwa [← h]

lemma IsPort.congr (x y : Value) (h : plain x = plain y) (hx : IsPort x) : IsPort y := by
  unfold IsPort
  rwa [← h]

lemma IsSeconds.congr (x y : Value) (h : plain x = plain y) (hx : IsSeconds x) : IsSeconds y := by
  unfold IsSeconds
  rwa [← h]

lemma SameKnown.acceptable {t t' : Table Value} (h : SameKnown t t') (ht : Acceptable t) :
    Acceptable t' := by
  refine ⟨⟨?_, ?_, ?_, ?_⟩, ⟨?_, ?_, ?_⟩⟩
  · exact h.rpc.isSection.1 ht.rpc.isSection
  · exact forall_of_plain IsBoolean.congr (h.rpc.content _ (by decide)) ht.rpc.enabled
  · exact forall_of_plain IsString.congr (h.rpc.content _ (by decide)) ht.rpc.listenAddress
  · exact forall_of_plain IsPort.congr (h.rpc.content _ (by decide)) ht.rpc.port
  · exact h.client.isSection.1 ht.client.isSection
  · exact forall_of_plain IsPort.congr (h.client.content _ (by decide)) ht.client.port
  · exact forall_of_plain IsSeconds.congr (h.client.content _ (by decide))
      ht.client.connectTimeoutSecs

lemma Takes.congr {d a : Scalar} (h : a?.map plain = b?.map plain) (ha : Takes a? d a) :
    Takes b? d a := by
  cases b? with
  | some y =>
    obtain ⟨x, rfl, hplain⟩ := Option.map_eq_some_iff.1 h
    exact hplain.symm.trans ha
  | none =>
    rw [Option.map_none, Option.map_eq_none_iff] at h
    rwa [h] at ha

lemma SameKnown.overlays {t t' : Table Value} {s : Settings} (h : SameKnown t t')
    (hs : Overlays t s) : Overlays t' s := by
  refine ⟨⟨?_, ?_, ?_⟩, ⟨?_, ?_⟩⟩
  · exact hs.rpc.enabled.congr (h.rpc.content _ (by decide))
  · exact hs.rpc.listenAddress.congr (h.rpc.content _ (by decide))
  · exact hs.rpc.port.congr (h.rpc.content _ (by decide))
  · exact hs.client.port.congr (h.client.content _ (by decide))
  · exact hs.client.connectTimeoutSecs.congr (h.client.content _ (by decide))

end SameKnown

/-! ### Texts -/

section Texts

variable {text : String} {t : Table Value} (h : Toml.document? text.toList = some t)
include h

lemma parse_eq : parse text =
    (ofTable t).mapError fun m => .config ((SettingsError.mismatch m).message text.toList) := by
  rw [parse, ofToml, h]
  dsimp only
  cases ofTable t <;> rfl

lemma parse_eq_ok_iff {s : Settings} : parse text = .ok s ↔ Acceptable t ∧ Overlays t s := by
  rw [← ofTable_eq_ok_iff (document?_proper h), parse_eq h]
  cases ofTable t with
  | error m => exact ⟨fun h => (nomatch h), fun h => (nomatch h)⟩
  | ok s' => exact ⟨fun h => congrArg _ (Except.ok.inj h), fun h => congrArg _ (Except.ok.inj h)⟩

lemma exists_parse_iff : (∃ s, parse text = .ok s) ↔ Acceptable t := by
  rw [← ofTable_total (document?_proper h)]
  refine exists_congr fun s => ?_
  rw [parse_eq_ok_iff h, ofTable_eq_ok_iff (document?_proper h)]

lemma parse_sameKnown {text' : String} {t' : Table Value}
    (h' : Toml.document? text'.toList = some t') (hsame : SameKnown t t') :
    (parse text').toOption = (parse text).toOption := by
  have hiff : ∀ s, parse text' = .ok s ↔ parse text = .ok s := by
    intro s
    rw [parse_eq_ok_iff h, parse_eq_ok_iff h']
    constructor
    · exact fun hs => ⟨hsame.symm.acceptable hs.1, hsame.symm.overlays hs.2⟩
    · exact fun hs => ⟨hsame.acceptable hs.1, hsame.overlays hs.2⟩
  cases hleft : parse text' with
  | ok s => rw [(hiff s).1 hleft]
  | error e =>
    cases hright : parse text with
    | ok s =>
      rw [(hiff s).2 hright] at hleft
      cases hleft
    | error e' => rfl

omit h

lemma parse_eq_ok_or_config : (∃ s, parse text = .ok s) ∨ ∃ m, parse text = .error (.config m) := by
  unfold parse
  cases ofToml text.toList with
  | ok s => exact .inl ⟨s, rfl⟩
  | error e => exact .inr ⟨_, rfl⟩

lemma exists_document_of_parse {s : Settings} (h : parse text = .ok s) :
    ∃ t, Toml.document? text.toList = some t := by
  cases hdocument : Toml.document? text.toList with
  | some t => exact ⟨t, rfl⟩
  | none =>
    rw [parse, ofToml, hdocument] at h
    cases h

end Texts

/-- A document is read exactly if its known sections and fields have the right kind, and then the
settings are its fields over the defaults. Two documents that say the same of the known fields have
the same settings, or neither has any. All other texts are refused as settings. -/
theorem parse_overlays (text : String) :
    (∀ t, Toml.document? text.toList = some t →
      ((∃ s, parse text = .ok s) ↔ Acceptable t) ∧
      (∀ s, parse text = .ok s ↔ Acceptable t ∧ Overlays t s) ∧
      ∀ text' t', Toml.document? text'.toList = some t' → SameKnown t t' →
        (parse text').toOption = (parse text).toOption) ∧
    ((¬∃ t, Toml.document? text.toList = some t ∧ Acceptable t) →
      ∃ m, parse text = .error (.config m)) := by
  refine ⟨?_, ?_⟩
  · intro t h
    refine ⟨exists_parse_iff h, fun s => parse_eq_ok_iff h, ?_⟩
    intro text' t' h' hsame
    exact parse_sameKnown h h' hsame
  · intro hnot
    rcases parse_eq_ok_or_config with ⟨s, hs⟩ | hconfig
    · obtain ⟨t, h⟩ := exists_document_of_parse hs
      exact absurd ⟨t, h, (exists_parse_iff h).1 ⟨s, hs⟩⟩ hnot
    · exact hconfig

/-- A section as an array, a key that is not known, and a section as a table. -/
theorem parse_array_and_table : ∃ t,
    Toml.document? "x = 1\nclient = [7001]\n[rpc]\nport = 7000".toList = some t ∧ Acceptable t ∧
      Overlays t { rpc := { port := 7000 }, client := { port := 7001 } } := by
  have hdocument : ∃ t, Toml.document? "x = 1\nclient = [7001]\n[rpc]\nport = 7000".toList = some t :=
    ⟨_, rfl⟩
  obtain ⟨t, h⟩ := hdocument
  exact ⟨t, h, (((parse_overlays _).1 t h).2.1 _).1 rfl⟩

end MemberRelay.Proofs
