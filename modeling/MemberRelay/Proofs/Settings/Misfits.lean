import MemberRelay.Proofs.Settings.Overlay
import MemberRelay.Proofs.Toml.Reach

/-!
# Values that do not fit

The known sections and fields of a document, in the order in which they are visited: each section,
and after it its fields. Reading ends well if all of them fit, and else at the first one that does
not.
-/

namespace MemberRelay.Proofs
open Toml Settings

/-- The fields of a section, in the order in which the items of an array are taken for them. -/
def knownFields : Expected → List (String × Expected)
  | .rpcSection => [("enabled", .boolean), ("listen_address", .string), ("port", .u16)]
  | .clientSection => [("port", .u16), ("connect_timeout_secs", .u64)]
  | _ => []

def knownSections : List (String × Expected) := [("rpc", .rpcSection), ("client", .clientSection)]

/-- What is taken where something is expected. -/
def Fits : Expected → Value → Prop
  | .boolean, v => IsBoolean v
  | .string, v => IsString v
  | .u16, v => IsPort v
  | .u64, v => ∃ n, plain v = some (.integer n) ∧ 0 ≤ n ∧ n ≤ 18446744073709551615
  | .rpcSection, v => IsSection v
  | .clientSection, v => IsSection v

/-- The value at an address stands for a known section or for a known field of one. In an array, and
among several tables, the fields are told by their order. -/
inductive IsItem (t : Table Value) : Address → Expected → Value → Prop where
  | whole {s : String} {e : Expected} {v : Value} (h : (s, e) ∈ knownSections)
      (hv : valueAt? [.name s] (.table t) = some v) : IsItem t [.name s] e v
  | field {s f : String} {e e' : Expected} {v : Value} (h : (s, e) ∈ knownSections)
      (hf : (f, e') ∈ knownFields e) (hv : valueAt? [.name s, .name f] (.table t) = some v) :
      IsItem t [.name s, .name f] e' v
  | element {s f : String} {i : Nat} {e e' : Expected} {v : Value} (h : (s, e) ∈ knownSections)
      (hf : (knownFields e)[i]? = some (f, e')) (hv : valueAt? [.name s, .index i] (.table t) = some v) :
      IsItem t [.name s, .index i] e' v

/-- A visited value. `name` is where it is reported if it has no span of its own. -/
structure Visited where
  address : Address
  expected : Expected
  value : Value
  name : Span

namespace Visited

def Fits (i : Visited) : Prop := Proofs.Fits i.expected i.value

def span (i : Visited) : Span := i.value.span?.getD i.name

def mismatch (i : Visited) : Mismatch := ⟨i.value, i.expected, i.span⟩

end Visited

/-- A named value of a section, and how it is selected there. -/
structure Member where
  selector : Selector
  name : String
  span : Span
  value : Value

/-- Values that take the names of their places. -/
def ordered (names : List String) (span : Span) (vs : List Value) : List Member :=
  (names.zip vs).zipIdx.map fun p => ⟨.index p.2, p.1.1, span, p.1.2⟩

/-- The named values of a section; `name` is where the section has its name. -/
def members (names : List String) (name : Span) : Value → List Member
  | .table t => t.entries.map fun e => ⟨.name e.1.name, e.1.name, e.1.span, e.2⟩
  | .array items span => ordered names span items
  | .tables ts => ordered names name (ts.map .table)
  | .scalar _ _ => []

/-- A member is visited if its name is known. -/
def known (fields : List (String × Expected)) (base : Address) (p : Member) : List Visited :=
  match fields.lookup p.name with
  | none => []
  | some e => [⟨base ++ [p.selector], e, p.value, p.span⟩]

/-- What is visited for a section. -/
def sectionItems (base : Address) (e : Expected) (name : Span) (v : Value) : List Visited :=
  ⟨base, e, v, name⟩ ::
    (members ((knownFields e).map Prod.fst) name v).flatMap (known (knownFields e) base)

/-- What is visited for an entry of a document. -/
def entryItems (entry : Key × Value) : List Visited :=
  match knownSections.lookup entry.1.name with
  | none => []
  | some e => sectionItems [.name entry.1.name] e entry.1.span entry.2

def items (t : Table Value) : List Visited := t.entries.flatMap entryItems

/-- A reading of items ends well if all fit, and at the first one that does not. -/
inductive Visits {σ : Type} : Except Mismatch σ → List Visited → Prop where
  | passes {s : σ} {is : List Visited} (h : ∀ i ∈ is, i.Fits) : Visits (.ok s) is
  | stops {before after : List Visited} {i : Visited} (h : ∀ j ∈ before, j.Fits) (hi : ¬i.Fits) :
      Visits (.error i.mismatch) (before ++ i :: after)

/-! ### Readings -/

section Readings

variable {σ τ β : Type} {is js : List Visited} {r : Except Mismatch σ} {f : σ → Except Mismatch τ}

lemma visits_nil (s : σ) : Visits (.ok s) [] := .passes fun _ hi => absurd hi List.not_mem_nil

lemma Visits.bind (h : Visits r is) (hf : ∀ s, r = .ok s → Visits (f s) js) :
    Visits (r >>= f) (is ++ js) := by
  cases h with
  | @passes s _ h =>
    have hnext : Visits (f s) js := hf s rfl
    change Visits (f s) (is ++ js)
    generalize f s = r' at hnext
    cases hnext with
    | passes h' => exact .passes (List.forall_mem_append.2 ⟨h, h'⟩)
    | stops h' hi =>
      rw [← List.append_assoc]
      exact .stops (List.forall_mem_append.2 ⟨h, h'⟩) hi
  | stops h hi =>
    rw [List.append_assoc, List.cons_append]
    exact .stops h hi

lemma Visits.map (h : Visits r is) (g : σ → τ) : Visits (r >>= fun s => .ok (g s)) is := by
  rw [← List.append_nil is]
  exact h.bind fun s _ => visits_nil (g s)

lemma visits_foldlM {step : σ → β → Except Mismatch σ} {visited : β → List Visited}
    (hstep : ∀ s b, Visits (step s b) (visited b)) (bs : List β) (s : σ) :
    Visits (bs.foldlM step s) (bs.flatMap visited) := by
  induction bs generalizing s with
  | nil => exact visits_nil s
  | cons b bs ih =>
    rw [List.foldlM_cons, List.flatMap_cons]
    exact (hstep s b).bind fun s _ => ih s

lemma visits_fit {α : Type} {e : Expected} {read? : Value → Option α} {v : Value} {name : Span}
    (hread : (∃ a, fit e read? name v = .ok a) ↔ Fits e v) (base : Address) :
    Visits (fit e read? name v) [⟨base, e, v, name⟩] := by
  by_cases hfit : Fits e v
  · obtain ⟨a, ha⟩ := hread.2 hfit
    rw [ha]
    exact .passes (List.forall_mem_singleton.2 hfit)
  · have herror : fit e read? name v = .error (Visited.mismatch ⟨base, e, v, name⟩) := by
      have hnone : ∀ a, fit e read? name v ≠ .ok a := fun a ha => hfit (hread.1 ⟨a, ha⟩)
      unfold fit at hnone ⊢
      split
      · next a ha =>
        rw [ha] at hnone
        exact absurd rfl (hnone a)
      · rfl
    rw [herror]
    have hstop : Visits (.error (Visited.mismatch ⟨base, e, v, name⟩) : Except Mismatch α)
        ([] ++ [⟨base, e, v, name⟩]) := .stops (fun _ hj => absurd hj List.not_mem_nil) hfit
    exact hstop

variable {α : Type} {name : String} {get : σ → α} {set : σ → α → σ}
  {read : α → Span → Value → Except Mismatch α}
  {rest : σ → String → Span → Value → Except Mismatch σ} {s : σ} {n : String} {span : Span} {v : Value}

/-- What is visited under one name, and what under all others. -/
lemma visits_fieldThen (hread : n = name → Visits (read (get s) span v) is)
    (hrest : n ≠ name → Visits (rest s n span v) is) :
    Visits (fieldThen name get set read rest s n span v) is := by
  by_cases hn : n = name
  · rw [fieldThen, if_pos hn]
    exact (hread hn).map (set s)
  · rw [fieldThen, if_neg hn]
    exact hrest hn

end Readings

/-! ### Sections -/

section Sections

variable {σ : Type} {fields : List (String × Expected)} {base : Address} {p : Member} {e : Expected}
  {n : String} {v : Value} {span name : Span}

lemma known_cons_self (h : p.name = n) :
    known ((n, e) :: fields) base p = [⟨base ++ [p.selector], e, p.value, p.span⟩] := by
  rw [known, h, List.lookup_cons_self]

lemma known_cons_ne (h : p.name ≠ n) : known ((n, e) :: fields) base p = known fields base p := by
  rw [known, List.lookup_cons, beq_eq_false_iff_ne.2 h]
  rfl

/-- The place of a field, before those of the other fields. -/
lemma visits_field {α : Type} {get : σ → α} {set : σ → α → σ} {read? : Value → Option α}
    {rest : σ → String → Span → Value → Except Mismatch σ} {s : σ}
    (hread : ∀ v, (∃ a, fit e read? p.span v = .ok a) ↔ Fits e v)
    (hrest : Visits (rest s p.name p.span p.value) (known fields base p)) :
    Visits (fieldThen n get set (fun _ => fit e read?) rest s p.name p.span p.value)
      (known ((n, e) :: fields) base p) := by
  refine visits_fieldThen (fun hn => ?_) fun hn => ?_
  · rw [known_cons_self hn]
    exact visits_fit (hread p.value) _
  · rwa [known_cons_ne hn]

lemma assignRpc_visits (s : RpcSettings) (base : Address) (p : Member) :
    Visits (assignRpc s p.name p.span p.value) (known (knownFields .rpcSection) base p) := by
  rw [assignRpc_eq]
  apply visits_field fun _ => fit_boolean_iff
  apply visits_field fun _ => fit_string_iff
  exact visits_field (fun _ => fit_port_iff) (visits_nil s)

/-- A number of seconds may be any that a machine holds. -/
lemma fit_u64_iff : (∃ k, fit .u64 u64? span v = .ok k) ↔ Fits .u64 v := by
  have hsize : UInt64.size = 18446744073709551616 := rfl
  constructor
  · rintro ⟨k, hk⟩
    have hlt := k.toNat_lt_size
    exact ⟨k.toNat, u64?_eq_some_iff.1 (fit_eq_ok_iff.1 hk), by omega, by omega⟩
  · rintro ⟨n, hn, hlow, hhigh⟩
    obtain ⟨span, rfl⟩ := plain_eq_some_iff.1 hn
    exact ⟨_, fit_eq_ok_iff.2 (if_pos ⟨hlow, by omega⟩)⟩

lemma assignClient_visits (s : ClientSettings) (base : Address) (p : Member) :
    Visits (assignClient s p.name p.span p.value) (known (knownFields .clientSection) base p) := by
  rw [assignClient_eq]
  apply visits_field fun _ => fit_port_iff
  exact visits_field (fun _ => fit_u64_iff) (visits_nil s)

lemma map_ordered (names : List String) (span : Span) (vs : List Value) :
    (ordered names span vs).map (fun p => (p.name, p.span, p.value)) = arrayFields names span vs := by
  rw [ordered, List.map_map, arrayFields]
  nth_rewrite 2 [← List.zipIdx_map_fst 0 (names.zip vs)]
  rw [List.map_map]
  rfl

/-- What is read of a section are its members. -/
lemma fields?_eq_members {names : List String} {fs : List (String × Span × Value)}
    (h : fields? names name v = some fs) :
    fs = (members names name v).map fun p => (p.name, p.span, p.value) := by
  cases v with
  | scalar s span =>
    cases s with
    | moment text =>
      cases h
      rfl
    | _ => cases h
  | array items span =>
    cases h
    exact (map_ordered names span items).symm
  | table t =>
    cases h
    rw [members, List.map_map]
    rfl
  | tables ts =>
    cases h
    rw [members, map_ordered, arrayFields, List.zip_map_right, List.map_map]
    rfl

lemma readSection_visits {assign : σ → String → Span → Value → Except Mismatch σ} (s : σ)
    (hsection : Fits e v ↔ IsSection v)
    (hassign : ∀ s p, Visits (assign s p.name p.span p.value) (known (knownFields e) base p)) :
    Visits (readSection e ((knownFields e).map Prod.fst) assign s name v)
      (sectionItems base e name v) := by
  have hfit : (∃ fs, fit e (fields? ((knownFields e).map Prod.fst) name) name v = .ok fs) ↔
      Fits e v := by
    rw [hsection, ← fields?_isSome_iff]
    exact exists_congr fun _ => fit_eq_ok_iff
  rw [readSection, sectionItems, ← List.singleton_append]
  refine (visits_fit hfit base).bind fun fs hfs => ?_
  rw [fields?_eq_members (fit_eq_ok_iff.1 hfs), List.foldlM_map]
  exact visits_foldlM hassign _ s

lemma assignSection_visits (s : Settings) (entry : Key × Value) :
    Visits (assignSection s entry.1.name entry.1.span entry.2) (entryItems entry) := by
  rw [assignSection_eq, entryItems, knownSections]
  refine visits_fieldThen (fun hn => ?_) fun hn => visits_fieldThen (fun hn' => ?_) fun hn' => ?_
  · rw [hn, List.lookup_cons_self]
    exact readSection_visits s.rpc Iff.rfl fun s p => assignRpc_visits s _ p
  · rw [hn', List.lookup_cons, beq_eq_false_iff_ne.2 (by decide), List.lookup_cons_self]
    exact readSection_visits s.client Iff.rfl fun s p => assignClient_visits s _ p
  · rw [List.lookup_cons, beq_eq_false_iff_ne.2 hn, List.lookup_cons, beq_eq_false_iff_ne.2 hn']
    exact visits_nil s

/-- A document is read item by item. -/
theorem ofTable_visits (t : Table Value) : Visits (ofTable t) (items t) :=
  visits_foldlM assignSection_visits t.entries {}

end Sections

/-! ### Items -/

section Items

variable {t : Table Value} {a : Address} {e e' : Expected} {v w : Value} {i : Visited} {p : Member}
  {names : List String} {name : Span} {n : String} {k : Nat}

lemma find?_of_mem (ht : Proper (.table t)) {entry : Key × Value} (h : entry ∈ t.entries) :
    t.find? entry.1.name = some entry.2 := by
  have hfields : (∀ f ∈ tableFields t, f.1 = entry.1.name → t.find? entry.1.name = some f.2.2) ↔
      ∀ w, lookup (tableFields t) entry.1.name = some w → t.find? entry.1.name = some w :=
    (distinct_tableFields ht).forall_iff (P := fun w => t.find? entry.1.name = some w)
  rw [lookup_tableFields] at hfields
  exact hfields.2 (fun _ hw => hw) _ (List.mem_map_of_mem h) rfl

lemma lookup_knownSections : knownSections.lookup n = some e ↔ (n, e) ∈ knownSections := by
  simp only [knownSections, List.lookup_cons]
  grind

lemma lookup_knownFields : (knownFields e).lookup n = some e' ↔ (n, e') ∈ knownFields e := by
  cases e <;> simp only [knownFields, List.lookup_cons] <;> grind

lemma mem_known : i ∈ known (knownFields e) a p ↔
    ∃ e', (p.name, e') ∈ knownFields e ∧ i = ⟨a ++ [p.selector], e', p.value, p.span⟩ := by
  simp only [← lookup_knownFields]
  rw [known]
  cases (knownFields e).lookup p.name <;> simp

lemma mem_sectionItems : i ∈ sectionItems a e name v ↔ i = ⟨a, e, v, name⟩ ∨
    ∃ p ∈ members ((knownFields e).map Prod.fst) name v, ∃ e', (p.name, e') ∈ knownFields e ∧
      i = ⟨a ++ [p.selector], e', p.value, p.span⟩ := by
  simp only [sectionItems, List.mem_cons, List.mem_flatMap, mem_known]

lemma mem_items : i ∈ items t ↔ ∃ entry ∈ t.entries, ∃ e, (entry.1.name, e) ∈ knownSections ∧
    i ∈ sectionItems [.name entry.1.name] e entry.1.span entry.2 := by
  simp only [items, List.mem_flatMap, ← lookup_knownSections]
  refine exists_congr fun entry => and_congr_right fun _ => ?_
  rw [entryItems]
  cases knownSections.lookup entry.1.name <;> simp

lemma mem_ordered {span : Span} {vs : List Value} : p ∈ ordered names span vs ↔
    ∃ k, names[k]? = some p.name ∧ vs[k]? = some p.value ∧ p.selector = .index k ∧
      p.span = span := by
  rw [ordered, List.mem_map]
  constructor
  · rintro ⟨q, hq, rfl⟩
    obtain ⟨hname, hvalue⟩ := List.getElem?_zip_eq_some.1 (List.mem_zipIdx_iff_getElem?.1 hq)
    exact ⟨q.2, hname, hvalue, rfl, rfl⟩
  · rintro ⟨k, hname, hvalue, hselector, rfl⟩
    refine ⟨((p.name, p.value), k), ?_, by rw [← hselector]⟩
    exact List.mem_zipIdx_iff_getElem?.2 (List.getElem?_zip_eq_some.2 ⟨hname, hvalue⟩)

/-- A member is what its selector selects, and has the name of its place. -/
lemma selects_of_mem (hv : Proper v) (h : p ∈ members names name v) :
    valueAt? [p.selector] v = some p.value ∧
      (p.selector = .name p.name ∨ ∃ k, p.selector = .index k ∧ names[k]? = some p.name) := by
  cases v with
  | scalar s span => exact absurd h List.not_mem_nil
  | array items span =>
    obtain ⟨k, hname, hvalue, hselector, -⟩ := mem_ordered.1 h
    rw [hselector, valueAt?, hvalue]
    exact ⟨rfl, .inr ⟨k, rfl, hname⟩⟩
  | table t =>
    obtain ⟨entry, hentry, rfl⟩ := List.mem_map.1 h
    exact ⟨valueAt?_name.trans (find?_of_mem hv hentry), .inl rfl⟩
  | tables ts =>
    obtain ⟨k, hname, hvalue, hselector, -⟩ := mem_ordered.1 h
    rw [List.getElem?_map] at hvalue
    obtain ⟨t, ht, heq⟩ := Option.map_eq_some_iff.1 hvalue
    rw [hselector, valueAt?, ht, ← heq]
    exact ⟨rfl, .inr ⟨k, rfl, hname⟩⟩

lemma exists_named_member (h : valueAt? [.name n] v = some w) :
    ∃ p ∈ members names name v, p.selector = .name n ∧ p.name = n ∧ p.value = w := by
  cases v with
  | table t =>
    rw [valueAt?_name] at h
    obtain ⟨entry, hentry, rfl, rfl⟩ := find?_eq_some h
    exact ⟨_, List.mem_map_of_mem hentry, rfl, rfl, rfl⟩
  | _ => cases h

lemma exists_ordered_member (h : valueAt? [.index k] v = some w) (hn : names[k]? = some n) :
    ∃ p ∈ members names name v, p.selector = .index k ∧ p.name = n ∧ p.value = w := by
  cases v with
  | array items span =>
    obtain ⟨x, hx, heq⟩ := Option.bind_eq_some_iff.1 h
    cases heq
    exact ⟨⟨.index k, n, span, w⟩, mem_ordered.2 ⟨k, hn, hx, rfl, rfl⟩, rfl, rfl, rfl⟩
  | tables ts =>
    obtain ⟨t, ht, heq⟩ := Option.bind_eq_some_iff.1 h
    cases heq
    have hvalue : (ts.map Value.table)[k]? = some (.table t) := by rw [List.getElem?_map, ht]; rfl
    exact ⟨⟨.index k, n, name, .table t⟩, mem_ordered.2 ⟨k, hn, hvalue, rfl, rfl⟩, rfl, rfl, rfl⟩
  | _ => cases h

/-- What is visited are the known sections and fields. -/
lemma isItem_of_mem (ht : Proper (.table t)) (h : i ∈ items t) :
    IsItem t i.address i.expected i.value := by
  obtain ⟨entry, hentry, e, he, hi⟩ := mem_items.1 h
  have hfind := find?_of_mem ht hentry
  rw [← valueAt?_name] at hfind
  rcases mem_sectionItems.1 hi with rfl | ⟨p, hp, e', he', rfl⟩
  · exact .whole he hfind
  · obtain ⟨hvalue, hname | ⟨k, hk, hname⟩⟩ := selects_of_mem (ht.entry hentry) hp
    · rw [← valueAt?_append_of_some hfind, hname] at hvalue
      dsimp only
      rw [hname]
      exact .field he he' hvalue
    · rw [← valueAt?_append_of_some hfind, hk] at hvalue
      -- a field is known once, so the one of this name is the one at this place
      rw [List.getElem?_map] at hname
      obtain ⟨⟨f, e''⟩, hf, heq⟩ := Option.map_eq_some_iff.1 hname
      have hsame : f = p.name := heq
      subst hsame
      have hlookup := lookup_knownFields.2 (List.mem_of_getElem? hf)
      rw [lookup_knownFields.2 he'] at hlookup
      cases hlookup
      dsimp only
      rw [hk]
      exact .element he hf hvalue

lemma exists_item (h : IsItem t a e v) :
    ∃ i ∈ items t, i.address = a ∧ i.expected = e ∧ i.value = v := by
  -- the item of a section is visited at the entry that has its name
  have hentry : ∀ {s e w}, (s, e) ∈ knownSections → valueAt? [.name s] (.table t) = some w →
      ∃ entry ∈ t.entries, entry.1.name = s ∧ entry.2 = w ∧
        ∀ i ∈ sectionItems [.name s] e entry.1.span w, i ∈ items t := by
    intro s e w he hw
    rw [valueAt?_name] at hw
    obtain ⟨entry, hentry, rfl, rfl⟩ := find?_eq_some hw
    exact ⟨entry, hentry, rfl, rfl, fun i hi => mem_items.2 ⟨entry, hentry, e, he, hi⟩⟩
  have hsplit : ∀ {s c}, valueAt? [.name s, c] (.table t) = some v →
      ∃ w, valueAt? [.name s] (.table t) = some w ∧ valueAt? [c] w = some v := by
    intro s c hv
    rw [← List.singleton_append, valueAt?_append] at hv
    exact Option.bind_eq_some_iff.1 hv
  cases h with
  | whole he hv =>
    obtain ⟨entry, -, -, -, hall⟩ := hentry he hv
    exact ⟨_, hall _ (mem_sectionItems.2 (.inl rfl)), rfl, rfl, rfl⟩
  | field he hf hv =>
    obtain ⟨w, hw, hv⟩ := hsplit hv
    obtain ⟨entry, -, -, -, hall⟩ := hentry he hw
    obtain ⟨p, hp, hselector, rfl, rfl⟩ := exists_named_member hv
    exact ⟨_, hall _ (mem_sectionItems.2 (.inr ⟨p, hp, _, hf, rfl⟩)), by rw [hselector]; rfl, rfl, rfl⟩
  | @element s f k e e' _ he hf hv =>
    obtain ⟨w, hw, hv⟩ := hsplit hv
    obtain ⟨entry, -, -, -, hall⟩ := hentry he hw
    have hname : ((knownFields e).map Prod.fst)[k]? = some f := by rw [List.getElem?_map, hf]; rfl
    obtain ⟨p, hp, hselector, rfl, rfl⟩ := exists_ordered_member hv hname
    have hknown := List.mem_of_getElem? hf
    exact ⟨_, hall _ (mem_sectionItems.2 (.inr ⟨p, hp, _, hknown, rfl⟩)), by rw [hselector]; rfl, rfl,
      rfl⟩

/-- Reading stops at the first item that does not fit. -/
theorem ofTable_stops (h : IsItem t a e v) (hnot : ¬Fits e v) : ∃ before i after,
    items t = before ++ i :: after ∧ (∀ j ∈ before, j.Fits) ∧ ¬i.Fits ∧
      ofTable t = .error i.mismatch := by
  obtain ⟨i, hi, rfl, rfl, rfl⟩ := exists_item h
  have hvisits := ofTable_visits t
  generalize hr : ofTable t = r at hvisits ⊢
  generalize his : items t = is at hvisits hi ⊢
  cases hvisits with
  | passes hall => exact absurd (hall i hi) hnot
  | @stops before after j hbefore hj => exact ⟨before, j, after, rfl, hbefore, hj, rfl⟩

end Items

end MemberRelay.Proofs
