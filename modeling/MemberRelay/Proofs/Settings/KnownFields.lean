import MemberRelay.Proofs.Settings.Misfits

/-!
# The known fields

The fields of the settings as one family: where a document has each of them, what is taken there, and
what the settings hold for it.
-/

namespace MemberRelay.Proofs
open Toml Settings

inductive KnownField where
  | enabled
  | listenAddress
  | rpcPort
  | clientPort
  | connectTimeoutSecs
  deriving DecidableEq

namespace KnownField

/-- The name of the section that a field belongs to. -/
def home : KnownField → String
  | enabled => "rpc"
  | listenAddress => "rpc"
  | rpcPort => "rpc"
  | clientPort => "client"
  | connectTimeoutSecs => "client"

def name : KnownField → String
  | enabled => "enabled"
  | listenAddress => "listen_address"
  | rpcPort => "port"
  | clientPort => "port"
  | connectTimeoutSecs => "connect_timeout_secs"

/-- The fields of the section, in the order in which the items of an array are taken for them. -/
def names : KnownField → List String
  | enabled => rpcFields
  | listenAddress => rpcFields
  | rpcPort => rpcFields
  | clientPort => clientFields
  | connectTimeoutSecs => clientFields

def expected : KnownField → Expected
  | enabled => .boolean
  | listenAddress => .string
  | rpcPort => .u16
  | clientPort => .u16
  | connectTimeoutSecs => .u64

/-- What a document holds for a field. -/
def value? (f : KnownField) (t : Table Value) : Option Value :=
  field? f.names (t.find? f.home) f.name

def Accepts : KnownField → Value → Prop
  | enabled => IsBoolean
  | listenAddress => IsString
  | rpcPort => IsPort
  | clientPort => IsPort
  | connectTimeoutSecs => IsSeconds

/-- What settings hold for a field. -/
def get : KnownField → Settings → Scalar
  | enabled, s => .boolean s.rpc.enabled
  | listenAddress, s => .string s.rpc.listenAddress
  | rpcPort, s => .integer s.rpc.port.toNat
  | clientPort, s => .integer s.client.port.toNat
  | connectTimeoutSecs, s => .integer s.client.connectTimeoutSecs.toNat

/-- The ways in which a field is selected from its section: by its name, or by its place. -/
def IsAt (f : KnownField) (c : Selector) : Prop :=
  c = .name f.name ∨ c = .index (f.names.idxOf f.name)

variable {f g : KnownField} {t : Table Value} {s : Settings} {v w x y : Value} {c : Selector}

lemma Accepts.congr (hx : f.Accepts x) (h : plain x = plain y) : f.Accepts y := by
  cases f with
  | enabled => exact IsBoolean.congr x y h hx
  | listenAddress => exact IsString.congr x y h hx
  | rpcPort => exact IsPort.congr x y h hx
  | clientPort => exact IsPort.congr x y h hx
  | connectTimeoutSecs => exact IsSeconds.congr x y h hx

/-- The numbers of seconds in a document are never too large. -/
lemma Accepts.fits (h : f.Accepts v) (hv : Proper v) : Fits f.expected v := by
  cases f with
  | connectTimeoutSecs =>
    obtain ⟨n, hn, hlow⟩ := h
    obtain ⟨span, rfl⟩ := plain_eq_some_iff.1 hn
    cases hv with
    | scalar fits =>
      have hhigh := (fits n rfl).2
      exact ⟨n, rfl, hlow, by omega⟩
  | _ => exact h

/-- Two fields of one section are not selected alike. -/
lemma IsAt.unique (hf : f.IsAt c) (hg : g.IsAt c) (hhome : f.home = g.home) : f = g := by
  have hsame : f.name = g.name ∨ f.names.idxOf f.name = g.names.idxOf g.name := by
    rcases hf with rfl | rfl
    · exact .inl (Selector.name.inj (hg.resolve_right nofun))
    · exact .inr (Selector.index.inj (hg.resolve_left nofun))
  revert hhome hsame
  cases f <;> cases g <;> decide

end KnownField

section Fields

variable {f : KnownField} {t : Table Value} {s : Settings} {v w : Value} {names : List String}
  {n : String} {k : Nat} {a : Address} {e : Expected}

/-! ### Documents and settings field by field -/

lemma acceptable_iff : Acceptable t ↔ (∀ v, t.find? "rpc" = some v → IsSection v) ∧
    (∀ v, t.find? "client" = some v → IsSection v) ∧
      ∀ (f : KnownField) v, f.value? t = some v → f.Accepts v := by
  constructor
  · rintro ⟨hrpc, hclient⟩
    refine ⟨hrpc.isSection, hclient.isSection, fun f => ?_⟩
    cases f with
    | enabled => exact hrpc.enabled
    | listenAddress => exact hrpc.listenAddress
    | rpcPort => exact hrpc.port
    | clientPort => exact hclient.port
    | connectTimeoutSecs => exact hclient.connectTimeoutSecs
  · rintro ⟨hrpc, hclient, hfields⟩
    exact ⟨⟨hrpc, hfields .enabled, hfields .listenAddress, hfields .rpcPort⟩,
      ⟨hclient, hfields .clientPort, hfields .connectTimeoutSecs⟩⟩

lemma overlays_iff : Overlays t s ↔ ∀ f : KnownField, Takes (f.value? t) (f.get {}) (f.get s) := by
  constructor
  · rintro ⟨hrpc, hclient⟩ f
    cases f with
    | enabled => exact hrpc.enabled
    | listenAddress => exact hrpc.listenAddress
    | rpcPort => exact hrpc.port
    | clientPort => exact hclient.port
    | connectTimeoutSecs => exact hclient.connectTimeoutSecs
  · intro hfields
    exact ⟨⟨hfields .enabled, hfields .listenAddress, hfields .rpcPort⟩,
      ⟨hfields .clientPort, hfields .connectTimeoutSecs⟩⟩

/-! ### Fields and addresses -/

lemma sectionField_of_name (h : valueAt? [.name n] w = some v) : sectionField names n w = some v := by
  cases w with
  | table t => exact valueAt?_name.symm.trans h
  | _ => cases h

lemma sectionField_of_index (h : valueAt? [.index k] w = some v) (hk : names.idxOf n = k) :
    sectionField names n w = some v := by
  subst hk
  cases w with
  | array items span =>
    obtain ⟨x, hx, heq⟩ := Option.bind_eq_some_iff.1 h
    cases heq
    exact hx
  | tables ts =>
    obtain ⟨t, ht, heq⟩ := Option.bind_eq_some_iff.1 h
    cases heq
    exact congrArg (Option.map Value.table) ht
  | _ => cases h

lemma valueAt?_of_sectionField (h : sectionField names n w = some v) :
    ∃ c : Selector, (c = .name n ∨ c = .index (names.idxOf n)) ∧ valueAt? [c] w = some v := by
  cases w with
  | scalar => cases h
  | table t => exact ⟨.name n, .inl rfl, valueAt?_name.trans h⟩
  | array items span =>
    have hitem : items[names.idxOf n]? = some v := h
    exact ⟨_, .inr rfl, by rw [valueAt?, hitem]; rfl⟩
  | tables ts =>
    obtain ⟨t, ht, rfl⟩ := Option.map_eq_some_iff.1 h
    exact ⟨_, .inr rfl, by rw [valueAt?, ht]; rfl⟩

lemma KnownField.exists_selector (h : f.value? t = some v) :
    ∃ c, f.IsAt c ∧ valueAt? [.name f.home, c] (.table t) = some v := by
  obtain ⟨w, hw, hv⟩ := Option.bind_eq_some_iff.1 h
  obtain ⟨c, hc, hv⟩ := valueAt?_of_sectionField hv
  exact ⟨c, hc, (valueAt?_append_of_some (valueAt?_name.trans hw) [c]).trans hv⟩

lemma KnownField.proper (ht : Proper (.table t)) (h : f.value? t = some v) : Proper v := by
  obtain ⟨w, hw, hv⟩ := Option.bind_eq_some_iff.1 h
  exact proper_sectionField (ht.find? hw) hv

/-- What is visited in a document is a section or one of the fields. -/
lemma IsItem.known (h : IsItem t a e v) : (∃ s, (s, e) ∈ knownSections ∧ t.find? s = some v) ∨
    ∃ f : KnownField, f.value? t = some v ∧ f.expected = e := by
  have hsplit : ∀ {s c}, valueAt? [.name s, c] (.table t) = some v →
      ∃ w, t.find? s = some w ∧ valueAt? [c] w = some v := by
    intro s c hv
    rw [← List.singleton_append, valueAt?_append, valueAt?_name] at hv
    exact Option.bind_eq_some_iff.1 hv
  have hfield : ∀ {s n e e' c w}, (s, e) ∈ knownSections → (n, e') ∈ knownFields e →
      t.find? s = some w → valueAt? [c] w = some v →
      (c = .name n ∨ c = .index (((knownFields e).map Prod.fst).idxOf n)) →
      ∃ f : KnownField, f.value? t = some v ∧ f.expected = e' := by
    intro s n e e' c w hs hn hw hv hc
    have hvalue : field? ((knownFields e).map Prod.fst) (t.find? s) n = some v := by
      rw [field?, hw, Option.bind_some]
      rcases hc with rfl | rfl
      · exact sectionField_of_name hv
      · exact sectionField_of_index hv rfl
    simp only [knownSections, List.mem_cons, Prod.mk.injEq, List.not_mem_nil, or_false] at hs
    rcases hs with ⟨rfl, rfl⟩ | ⟨rfl, rfl⟩
    · simp only [knownFields, List.mem_cons, Prod.mk.injEq, List.not_mem_nil, or_false] at hn
      rcases hn with ⟨rfl, rfl⟩ | ⟨rfl, rfl⟩ | ⟨rfl, rfl⟩
      · exact ⟨.enabled, hvalue, rfl⟩
      · exact ⟨.listenAddress, hvalue, rfl⟩
      · exact ⟨.rpcPort, hvalue, rfl⟩
    · simp only [knownFields, List.mem_cons, Prod.mk.injEq, List.not_mem_nil, or_false] at hn
      rcases hn with ⟨rfl, rfl⟩ | ⟨rfl, rfl⟩
      · exact ⟨.clientPort, hvalue, rfl⟩
      · exact ⟨.connectTimeoutSecs, hvalue, rfl⟩
  cases h with
  | whole hs hv => exact .inl ⟨_, hs, valueAt?_name.symm.trans hv⟩
  | field hs hf hv =>
    obtain ⟨w, hw, hv⟩ := hsplit hv
    exact .inr (hfield hs hf hw hv (.inl rfl))
  | @element s n k e e' _ hs hf hv =>
    obtain ⟨w, hw, hv⟩ := hsplit hv
    have hnodup : ((knownFields e).map Prod.fst).Nodup := by
      cases e <;> decide
    have hname : ((knownFields e).map Prod.fst)[k]? = some n := by rw [List.getElem?_map, hf]; rfl
    have hidx : ((knownFields e).map Prod.fst).idxOf n = k := by
      obtain ⟨hk, rfl⟩ := List.getElem?_eq_some_iff.1 hname
      exact hnodup.idxOf_getElem k hk
    exact .inr (hfield hs (List.mem_of_getElem? hf) hw hv (.inr (by rw [hidx])))

end Fields

end MemberRelay.Proofs
