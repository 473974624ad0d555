import MemberRelay.Proofs.Settings.Fields

/-!
# The two sections

What the sections of the server and of the client may hold, and what reading them makes of it: the
defaults with the known fields laid over them.
-/

namespace MemberRelay.Proofs
open Toml Settings

/-! ### What a section says -/

/-- The content of a value without parts. -/
def plain : Value → Option Scalar
  | .scalar s _ => some s
  | _ => none

def IsBoolean (v : Value) : Prop := ∃ b, plain v = some (.boolean b)

def IsString (v : Value) : Prop := ∃ s, plain v = some (.string s)

def IsPort (v : Value) : Prop := ∃ n, plain v = some (.integer n) ∧ 0 ≤ n ∧ n ≤ 65535

def IsSeconds (v : Value) : Prop := ∃ n, plain v = some (.integer n) ∧ 0 ≤ n

/-- What a section that may be missing holds for a field. -/
def field? (fields : List String) (v? : Option Value) (name : String) : Option Value :=
  v?.bind (sectionField fields name)

/-- A section `rpc`, if it is present, is one, and its known fields are of the right kind. -/
structure RpcFits (v? : Option Value) : Prop where
  isSection : ∀ v, v? = some v → IsSection v
  enabled : ∀ x, field? rpcFields v? "enabled" = some x → IsBoolean x
  listenAddress : ∀ x, field? rpcFields v? "listen_address" = some x → IsString x
  port : ∀ x, field? rpcFields v? "port" = some x → IsPort x

/-- A section `client`, if it is present, is one, and its known fields are of the right kind. -/
structure ClientFits (v? : Option Value) : Prop where
  isSection : ∀ v, v? = some v → IsSection v
  port : ∀ x, field? clientFields v? "port" = some x → IsPort x
  connectTimeoutSecs : ∀ x, field? clientFields v? "connect_timeout_secs" = some x → IsSeconds x

/-- The value is the content of the document's field if that is present, and the default if not. -/
def Takes (field? : Option Value) (default actual : Scalar) : Prop :=
  match field? with
  | some v => plain v = some actual
  | none => actual = default

structure RpcOverlays (v? : Option Value) (s : RpcSettings) : Prop where
  enabled : Takes (field? rpcFields v? "enabled") (.boolean true) (.boolean s.enabled)
  listenAddress : Takes (field? rpcFields v? "listen_address") (.string "127.0.0.1")
    (.string s.listenAddress)
  port : Takes (field? rpcFields v? "port") (.integer 50051) (.integer s.port.toNat)

structure ClientOverlays (v? : Option Value) (s : ClientSettings) : Prop where
  port : Takes (field? clientFields v? "port") (.integer 50051) (.integer s.port.toNat)
  connectTimeoutSecs : Takes (field? clientFields v? "connect_timeout_secs") (.integer 10)
    (.integer s.connectTimeoutSecs.toNat)

/-! ### Single values -/

section Values

variable {v : Value} {span : Span}

lemma plain_eq_some_iff {s : Scalar} : plain v = some s ↔ ∃ span, v = .scalar s span := by
  cases v <;> simp [plain]

lemma boolean?_eq_some_iff {b : Bool} : boolean? v = some b ↔ plain v = some (.boolean b) := by
  cases v with
  | scalar s span => cases s <;> simp [boolean?, plain]
  | _ => simp [boolean?, plain]

lemma string?_eq_some_iff {a : String} :
    Settings.string? v = some a ↔ plain v = some (.string a) := by
  cases v with
  | scalar s span => cases s <;> simp [Settings.string?, plain]
  | _ => simp [Settings.string?, plain]

/-- An integer in range is one that a machine number has. -/
lemma inRange_eq_some_iff {α : Type} {size : Nat} {ofNat : Nat → α} {toNat : α → Nat} {n : Int} {a : α}
    (hlt : ∀ a, toNat a < size) (hleft : ∀ a, ofNat (toNat a) = a)
    (hright : ∀ n < size, toNat (ofNat n) = n) :
    (if 0 ≤ n ∧ n < size then some (ofNat n.toNat) else none) = some a ↔ n = toNat a := by
  constructor
  · intro h
    obtain ⟨⟨hlow, hhigh⟩, heq⟩ := Option.ite_none_right_eq_some.1 h
    have hn : toNat (ofNat n.toNat) = n.toNat := hright n.toNat (by omega)
    rw [← Option.some.inj heq, hn, Int.toNat_of_nonneg hlow]
  · rintro rfl
    have hhigh := hlt a
    rw [if_pos ⟨by omega, by omega⟩, Int.toNat_natCast, hleft]

lemma u16?_eq_some_iff {p : UInt16} : u16? v = some p ↔ plain v = some (.integer p.toNat) := by
  have hrange := fun n : Int => inRange_eq_some_iff (n := n) (a := p) UInt16.toNat_lt_size
    (fun a => UInt16.ofNat_toNat) (fun n hn => UInt16.toNat_ofNat_of_lt' hn)
  cases v with
  | scalar s span =>
    cases s with
    | integer n => simpa [u16?, plain] using hrange n
    | _ => simp [u16?, plain]
  | _ => simp [u16?, plain]

lemma u64?_eq_some_iff {p : UInt64} : u64? v = some p ↔ plain v = some (.integer p.toNat) := by
  have hrange := fun n : Int => inRange_eq_some_iff (n := n) (a := p) UInt64.toNat_lt_size
    (fun a => UInt64.ofNat_toNat) (fun n hn => UInt64.toNat_ofNat_of_lt' hn)
  cases v with
  | scalar s span =>
    cases s with
    | integer n => simpa [u64?, plain] using hrange n
    | _ => simp [u64?, plain]
  | _ => simp [u64?, plain]

lemma fit_boolean_iff : (∃ b, fit .boolean boolean? span v = .ok b) ↔ IsBoolean v :=
  exists_congr fun _ => fit_eq_ok_iff.trans boolean?_eq_some_iff

lemma fit_string_iff : (∃ a, fit .string Settings.string? span v = .ok a) ↔ IsString v :=
  exists_congr fun _ => fit_eq_ok_iff.trans string?_eq_some_iff

lemma fit_port_iff : (∃ p, fit .u16 u16? span v = .ok p) ↔ IsPort v := by
  constructor
  · rintro ⟨p, hp⟩
    have hlt := p.toNat_lt_size
    have hsize : UInt16.size = 65536 := rfl
    exact ⟨p.toNat, u16?_eq_some_iff.1 (fit_eq_ok_iff.1 hp), by omega, by omega⟩
  · rintro ⟨n, hn, hlow, hhigh⟩
    obtain ⟨span, rfl⟩ := plain_eq_some_iff.1 hn
    have hsize : (UInt16.size : Int) = 65536 := rfl
    exact ⟨_, fit_eq_ok_iff.2 (if_pos ⟨hlow, by omega⟩)⟩

/-- No document has an integer that is too large for a number of seconds. -/
lemma fit_seconds_iff (hv : Proper v) : (∃ k, fit .u64 u64? span v = .ok k) ↔ IsSeconds v := by
  constructor
  · rintro ⟨k, hk⟩
    exact ⟨k.toNat, u64?_eq_some_iff.1 (fit_eq_ok_iff.1 hk), by omega⟩
  · rintro ⟨n, hn, hlow⟩
    obtain ⟨span, rfl⟩ := plain_eq_some_iff.1 hn
    have hsize : (UInt64.size : Int) = 18446744073709551616 := rfl
    cases hv with
    | scalar fits =>
      have hhigh := (fits n rfl).2
      exact ⟨_, fit_eq_ok_iff.2 (if_pos ⟨hlow, by omega⟩)⟩

/-- A place that becomes what a field holds takes it, or keeps the default. -/
lemma Becomes.takes {α : Type} {f : α → Scalar} {field? : Option Value} {old new : α}
    (h : Becomes (fun v _ a => plain v = some (f a)) field? old new) :
    Takes field? (f old) (f new) := by
  cases field? with
  | some v => exact h
  | none => exact congrArg f h

end Values

/-! ### The section of the server -/

section Rpc

variable {s s' : RpcSettings} {n : String} {span : Span} {v : Value}

lemma assignRpc_eq : assignRpc =
    fieldThen "enabled" RpcSettings.enabled (fun s b => { s with enabled := b })
      (fun _ => fit .boolean boolean?)
      (fieldThen "listen_address" RpcSettings.listenAddress (fun s a => { s with listenAddress := a })
        (fun _ => fit .string Settings.string?)
        (fieldThen "port" RpcSettings.port (fun s p => { s with port := p })
          (fun _ => fit .u16 u16?) nothingElse)) :=
  rfl

lemma enabled_slot : Slot assignRpc "enabled" RpcSettings.enabled
    fun v _ b => plain v = some (.boolean b) := by
  rw [assignRpc_eq]
  refine Slot.here (fun _ _ => rfl) (fun _ hb => boolean?_eq_some_iff.1 (fit_eq_ok_iff.1 hb)) ?_
  refine Keeps.fieldThen (fun _ _ => rfl) ?_
  exact Keeps.fieldThen (fun _ _ => rfl) keeps_nothingElse

lemma listenAddress_slot : Slot assignRpc "listen_address" RpcSettings.listenAddress
    fun v _ a => plain v = some (.string a) := by
  rw [assignRpc_eq]
  refine Slot.there (by decide) (fun _ _ => rfl) ?_
  refine Slot.here (fun _ _ => rfl) (fun _ ha => string?_eq_some_iff.1 (fit_eq_ok_iff.1 ha)) ?_
  exact Keeps.fieldThen (fun _ _ => rfl) keeps_nothingElse

lemma rpcPort_slot : Slot assignRpc "port" RpcSettings.port
    fun v _ p => plain v = some (.integer p.toNat) := by
  rw [assignRpc_eq]
  refine Slot.there (by decide) (fun _ _ => rfl) ?_
  refine Slot.there (by decide) (fun _ _ => rfl) ?_
  exact Slot.here (fun _ _ => rfl) (fun _ hp => u16?_eq_some_iff.1 (fit_eq_ok_iff.1 hp))
    keeps_nothingElse

/-- What the section takes under a name. -/
def RpcField (n : String) (v : Value) : Prop :=
  if n = "enabled" then IsBoolean v
  else if n = "listen_address" then IsString v
  else if n = "port" then IsPort v
  else True

lemma rpcField_of_not_mem (hn : n ∉ rpcFields) : RpcField n v := by
  have h : n ≠ "enabled" ∧ n ≠ "listen_address" ∧ n ≠ "port" := by simpa [rpcFields] using hn
  simp [RpcField, h]

lemma assignRpc_total : (∃ s', assignRpc s n span v = .ok s') ↔ RpcField n v := by
  rw [assignRpc_eq]
  apply fieldThen_total fit_boolean_iff
  apply fieldThen_total fit_string_iff
  exact fieldThen_total fit_port_iff nothingElse_total

/-- The section is read exactly if it fits. -/
lemma readRpc_total (hv : Proper v) :
    (∃ s', readSection .rpcSection rpcFields assignRpc s span v = .ok s') ↔ RpcFits (some v) := by
  rw [readSection_total (F := RpcField) (fun _ _ _ _ _ => assignRpc_total)
    (fun _ hn _ => rpcField_of_not_mem hn) (by decide) hv]
  constructor
  · rintro ⟨hsection, hfit⟩
    refine ⟨fun w hw => Option.some.inj hw ▸ hsection, ?_, ?_, ?_⟩
    · exact fun x hx => by simpa [RpcField] using hfit "enabled" (by decide) x hx
    · exact fun x hx => by simpa [RpcField] using hfit "listen_address" (by decide) x hx
    · exact fun x hx => by simpa [RpcField] using hfit "port" (by decide) x hx
  · intro h
    refine ⟨h.isSection v rfl, ?_⟩
    intro n _ x hx
    unfold RpcField
    split_ifs with h₁ h₂ h₃
    · exact h.enabled x (h₁ ▸ hx)
    · exact h.listenAddress x (h₂ ▸ hx)
    · exact h.port x (h₃ ▸ hx)

/-- The section that is read is the defaults with its known fields laid over them. -/
lemma readRpc_overlays (hv : Proper v)
    (h : readSection .rpcSection rpcFields assignRpc {} span v = .ok s') :
    RpcOverlays (some v) s' := by
  obtain ⟨fs, hfs, hall⟩ := readSection_eq_ok_iff.1 h
  obtain ⟨hdistinct, hlookup⟩ := fields?_spec (by decide) hv hfs
  have henabled := (enabled_slot.becomes hdistinct hall).takes (f := .boolean)
  have haddress := (listenAddress_slot.becomes hdistinct hall).takes (f := .string)
  have hport := (rpcPort_slot.becomes hdistinct hall).takes (f := fun p : UInt16 => .integer p.toNat)
  rw [hlookup _ (by decide)] at henabled haddress hport
  exact ⟨henabled, haddress, hport⟩

/-- A section that is missing fits. -/
lemma rpcFits_iff {v? : Option Value} : (∀ v, v? = some v → RpcFits (some v)) ↔ RpcFits v? := by
  cases v? with
  | some v => exact ⟨fun h => h v rfl, fun h w hw => hw ▸ h⟩
  | none => exact ⟨fun _ => ⟨by simp, by simp [field?], by simp [field?], by simp [field?]⟩, by simp⟩

end Rpc

/-! ### The section of the client -/

section Client

variable {s s' : ClientSettings} {n : String} {span : Span} {v : Value}

lemma assignClient_eq : assignClient =
    fieldThen "port" ClientSettings.port (fun s p => { s with port := p }) (fun _ => fit .u16 u16?)
      (fieldThen "connect_timeout_secs" ClientSettings.connectTimeoutSecs
        (fun s k => { s with connectTimeoutSecs := k }) (fun _ => fit .u64 u64?) nothingElse) :=
  rfl

lemma clientPort_slot : Slot assignClient "port" ClientSettings.port
    fun v _ p => plain v = some (.integer p.toNat) := by
  rw [assignClient_eq]
  refine Slot.here (fun _ _ => rfl) (fun _ hp => u16?_eq_some_iff.1 (fit_eq_ok_iff.1 hp)) ?_
  exact Keeps.fieldThen (fun _ _ => rfl) keeps_nothingElse

lemma connectTimeoutSecs_slot :
    Slot assignClient "connect_timeout_secs" ClientSettings.connectTimeoutSecs
      fun v _ k => plain v = some (.integer k.toNat) := by
  rw [assignClient_eq]
  refine Slot.there (by decide) (fun _ _ => rfl) ?_
  exact Slot.here (fun _ _ => rfl) (fun _ hk => u64?_eq_some_iff.1 (fit_eq_ok_iff.1 hk))
    keeps_nothingElse

/-- What the section takes under a name. -/
def ClientField (n : String) (v : Value) : Prop :=
  if n = "port" then IsPort v else if n = "connect_timeout_secs" then IsSeconds v else True

lemma clientField_of_not_mem (hn : n ∉ clientFields) : ClientField n v := by
  have h : n ≠ "port" ∧ n ≠ "connect_timeout_secs" := by simpa [clientFields] using hn
  simp [ClientField, h]

lemma assignClient_total (hv : Proper v) :
    (∃ s', assignClient s n span v = .ok s') ↔ ClientField n v := by
  rw [assignClient_eq]
  apply fieldThen_total fit_port_iff
  exact fieldThen_total (fit_seconds_iff hv) nothingElse_total

/-- The section is read exactly if it fits. -/
lemma readClient_total (hv : Proper v) :
    (∃ s', readSection .clientSection clientFields assignClient s span v = .ok s') ↔
      ClientFits (some v) := by
  rw [readSection_total (F := ClientField) (fun _ _ _ _ hv => assignClient_total hv)
    (fun _ hn _ => clientField_of_not_mem hn) (by decide) hv]
  constructor
  · rintro ⟨hsection, hfit⟩
    refine ⟨fun w hw => Option.some.inj hw ▸ hsection, ?_, ?_⟩
    · exact fun x hx => by simpa [ClientField] using hfit "port" (by decide) x hx
    · exact fun x hx => by simpa [ClientField] using hfit "connect_timeout_secs" (by decide) x hx
  · intro h
    refine ⟨h.isSection v rfl, ?_⟩
    intro n _ x hx
    unfold ClientField
    split_ifs with h₁ h₂
    · exact h.port x (h₁ ▸ hx)
    · exact h.connectTimeoutSecs x (h₂ ▸ hx)

/-- The section that is read is the defaults with its known fields laid over them. -/
lemma readClient_overlays (hv : Proper v)
    (h : readSection .clientSection clientFields assignClient {} span v = .ok s') :
    ClientOverlays (some v) s' := by
  obtain ⟨fs, hfs, hall⟩ := readSection_eq_ok_iff.1 h
  obtain ⟨hdistinct, hlookup⟩ := fields?_spec (by decide) hv hfs
  have hport := (clientPort_slot.becomes hdistinct hall).takes
    (f := fun p : UInt16 => .integer p.toNat)
  have hsecs := (connectTimeoutSecs_slot.becomes hdistinct hall).takes
    (f := fun k : UInt64 => .integer k.toNat)
  rw [hlookup _ (by decide)] at hport hsecs
  exact ⟨hport, hsecs⟩

/-- A section that is missing fits. -/
lemma clientFits_iff {v? : Option Value} :
    (∀ v, v? = some v → ClientFits (some v)) ↔ ClientFits v? := by
  cases v? with
  | some v => exact ⟨fun h => h v rfl, fun h w hw => hw ▸ h⟩
  | none => exact ⟨fun _ => ⟨by simp, by simp [field?], by simp [field?]⟩, by simp⟩

end Client

end MemberRelay.Proofs
