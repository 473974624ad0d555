import MemberRelay.Proofs.Actions
import MemberRelay.Proofs.Toml.Proper
import MemberRelay.Settings.Decoding

/-!
# Fields of a section

A section is read field by field. Since no name stands twice, what the reading leaves in one place is
decided by the value under one name.
-/

namespace MemberRelay.Proofs
open Toml Settings

/-- The value under a name among named values. -/
def lookup (fields : List (String × Span × Value)) (name : String) : Option Value :=
  (fields.find? (·.1 == name)).map (·.2.2)

/-- Names do not repeat, and values are proper. -/
structure Distinct (fields : List (String × Span × Value)) : Prop where
  nodup : (fields.map (·.1)).Nodup
  proper : ∀ f ∈ fields, Proper f.2.2

/-! ### Lookups -/

section Lookups

variable {f : String × Span × Value} {fields : List (String × Span × Value)} {name : String}

lemma Distinct.of_cons (h : Distinct (f :: fields)) : Distinct fields := by
  have hnodup := h.nodup
  rw [List.map_cons, List.nodup_cons] at hnodup
  exact ⟨hnodup.2, fun g hg => h.proper g (List.mem_cons_of_mem f hg)⟩

lemma lookup_cons_self : lookup (f :: fields) f.1 = some f.2.2 := by
  simp [lookup]

lemma lookup_cons_ne (h : f.1 ≠ name) : lookup (f :: fields) name = lookup fields name := by
  rw [lookup, List.find?_cons_of_neg (by rwa [beq_iff_eq])]
  rfl

lemma lookup_eq_none (h : name ∉ fields.map (·.1)) : lookup fields name = none := by
  rw [lookup, Option.map_eq_none_iff, List.find?_eq_none]
  intro g hg hname
  exact h (List.mem_map.2 ⟨g, hg, beq_iff_eq.1 hname⟩)

/-- The fields of a name are the one that a lookup finds. -/
lemma Distinct.forall_iff (h : Distinct fields) {P : Value → Prop} :
    (∀ f ∈ fields, f.1 = name → P f.2.2) ↔ ∀ v, lookup fields name = some v → P v := by
  induction fields with
  | nil =>
    constructor
    · intro _ v hv
      cases hv
    · exact fun _ f hf => absurd hf List.not_mem_nil
  | cons f fields ih =>
    have hnodup := h.nodup
    rw [List.map_cons, List.nodup_cons] at hnodup
    rw [List.forall_mem_cons, ih h.of_cons]
    by_cases hname : f.1 = name
    · subst hname
      rw [lookup_cons_self, lookup_eq_none hnodup.1]
      constructor
      · rintro ⟨hf, -⟩ v hv
        rw [← Option.some.inj hv]
        exact hf rfl
      · intro hf
        exact ⟨fun _ => hf _ rfl, fun v hv => by cases hv⟩
    · rw [lookup_cons_ne hname]
      exact ⟨fun hf => hf.2, fun hf => ⟨fun heq => absurd heq hname, hf⟩⟩

end Lookups

/-! ### Readings -/

section Readings

variable {σ α : Type} {assign : σ → String → Span → Value → Except Mismatch σ}

/-- All fields one after another. -/
def assignAll (assign : σ → String → Span → Value → Except Mismatch σ) (s : σ)
    (fields : List (String × Span × Value)) : Except Mismatch σ :=
  fields.foldlM (fun s f => assign s f.1 f.2.1 f.2.2) s

lemma assignAll_cons {f : String × Span × Value} {fields : List (String × Span × Value)} {s s' : σ} :
    assignAll assign s (f :: fields) = .ok s' ↔
      ∃ s₁, assign s f.1 f.2.1 f.2.2 = .ok s₁ ∧ assignAll assign s₁ fields = .ok s' := by
  rw [assignAll, List.foldlM_cons, bind_eq_ok_iff]
  rfl

/-- A place goes from `old` to `new` by the value for it, and stays without one. -/
def Becomes (R : Value → α → α → Prop) (v? : Option Value) (old new : α) : Prop :=
  match v? with
  | some v => R v old new
  | none => new = old

/-- A place that only the fields of one name change, and what these do to it. -/
structure Slot (assign : σ → String → Span → Value → Except Mismatch σ) (name : String)
    (get : σ → α) (R : Value → α → α → Prop) : Prop where
  own : ∀ {s span v s'}, Proper v → assign s name span v = .ok s' → R v (get s) (get s')
  other : ∀ {s n span v s'}, n ≠ name → assign s n span v = .ok s' → get s' = get s

variable {name : String} {get : σ → α} {R : Value → α → α → Prop}
  {fields : List (String × Span × Value)} {s s' : σ}

lemma Slot.unchanged (h : Slot assign name get R) (hname : name ∉ fields.map (·.1))
    (hall : assignAll assign s fields = .ok s') : get s' = get s := by
  induction fields generalizing s with
  | nil =>
    cases hall
    rfl
  | cons f fields ih =>
    rw [List.map_cons, List.mem_cons, not_or] at hname
    obtain ⟨s₁, hfirst, hrest⟩ := assignAll_cons.1 hall
    rw [ih hname.2 hrest, h.other (Ne.symm hname.1) hfirst]

/-- A reading changes a place by the value under its name. -/
theorem Slot.becomes (h : Slot assign name get R) (hfields : Distinct fields)
    (hall : assignAll assign s fields = .ok s') :
    Becomes R (lookup fields name) (get s) (get s') := by
  induction fields generalizing s with
  | nil =>
    cases hall
    rfl
  | cons f fields ih =>
    obtain ⟨s₁, hfirst, hrest⟩ := assignAll_cons.1 hall
    by_cases hname : f.1 = name
    · subst hname
      have hnodup := hfields.nodup
      rw [List.map_cons, List.nodup_cons] at hnodup
      rw [lookup_cons_self, h.unchanged hnodup.1 hrest]
      exact h.own (hfields.proper f List.mem_cons_self) hfirst
    · rw [lookup_cons_ne hname, ← h.other hname hfirst]
      exact ih hfields.of_cons hrest

/-- A reading ends well if each field fits, whatever was read before it. -/
theorem assignAll_total {F : String → Value → Prop}
    (hassign : ∀ s n span v, Proper v → ((∃ s', assign s n span v = .ok s') ↔ F n v))
    (hfields : Distinct fields) :
    (∃ s', assignAll assign s fields = .ok s') ↔ ∀ f ∈ fields, F f.1 f.2.2 := by
  induction fields generalizing s with
  | nil => exact ⟨fun _ f hf => absurd hf List.not_mem_nil, fun _ => ⟨s, rfl⟩⟩
  | cons f fields ih =>
    have hf := hfields.proper f List.mem_cons_self
    rw [List.forall_mem_cons]
    constructor
    · rintro ⟨s', hall⟩
      obtain ⟨s₁, hfirst, hrest⟩ := assignAll_cons.1 hall
      exact ⟨(hassign s f.1 f.2.1 f.2.2 hf).1 ⟨s₁, hfirst⟩, (ih hfields.of_cons).1 ⟨s', hrest⟩⟩
    · rintro ⟨hfirst, hrest⟩
      obtain ⟨s₁, hs₁⟩ := (hassign s f.1 f.2.1 f.2.2 hf).2 hfirst
      obtain ⟨s', hs'⟩ := (ih (s := s₁) hfields.of_cons).2 hrest
      exact ⟨s', assignAll_cons.2 ⟨s₁, hs₁, hs'⟩⟩

end Readings

/-! ### Places -/

section Places

variable {σ α β : Type} {rest : σ → String → Span → Value → Except Mismatch σ} {name name' : String}
  {get : σ → α} {set : σ → α → σ} {read : α → Span → Value → Except Mismatch α} {get' : σ → β}

/-- Reads the value for one place, and leaves all other names to what follows. -/
def fieldThen (name : String) (get : σ → α) (set : σ → α → σ)
    (read : α → Span → Value → Except Mismatch α)
    (rest : σ → String → Span → Value → Except Mismatch σ) :
    σ → String → Span → Value → Except Mismatch σ :=
  fun s n span v => if n = name then return set s (← read (get s) span v) else rest s n span v

/-- No name is known. -/
def nothingElse : σ → String → Span → Value → Except Mismatch σ := fun s _ _ _ => .ok s

/-- No field changes a place. -/
def Keeps (assign : σ → String → Span → Value → Except Mismatch σ) (get : σ → α) : Prop :=
  ∀ s n span v s', assign s n span v = .ok s' → get s' = get s

lemma fieldThen_own {s s' : σ} {span : Span} {v : Value} :
    fieldThen name get set read rest s name span v = .ok s' ↔
      ∃ a, read (get s) span v = .ok a ∧ set s a = s' := by
  rw [fieldThen, if_pos rfl, bind_eq_ok_iff]
  exact exists_congr fun a => and_congr_right fun _ => ⟨Except.ok.inj, congrArg _⟩

lemma fieldThen_other {s : σ} {n : String} {span : Span} {v : Value} (hn : n ≠ name) :
    fieldThen name get set read rest s n span v = rest s n span v := by
  rw [fieldThen, if_neg hn]

lemma keeps_nothingElse : Keeps nothingElse get := by
  intro s n span v s' h
  rw [← Except.ok.inj h]

lemma Keeps.fieldThen (hget : ∀ s a, get' (set s a) = get' s) (h : Keeps rest get') :
    Keeps (fieldThen name get set read rest) get' := by
  intro s n span v s' hs'
  by_cases hn : n = name
  · subst hn
    obtain ⟨a, -, rfl⟩ := fieldThen_own.1 hs'
    exact hget s a
  · rw [fieldThen_other hn] at hs'
    exact h s n span v s' hs'

/-- The place that is read first. -/
lemma Slot.here {R : Value → α → α → Prop} (hget : ∀ s a, get (set s a) = a)
    (hread : ∀ {old span v new}, Proper v → read old span v = .ok new → R v old new)
    (h : Keeps rest get) : Slot (fieldThen name get set read rest) name get R where
  own := by
    intro s span v s' hv hs'
    obtain ⟨a, ha, rfl⟩ := fieldThen_own.1 hs'
    rw [hget]
    exact hread hv ha
  other := by
    intro s n span v s' hn hs'
    rw [fieldThen_other hn] at hs'
    exact h s n span v s' hs'

/-- A place that is read later. -/
lemma Slot.there {R : Value → β → β → Prop} (hname : name' ≠ name)
    (hget : ∀ s a, get' (set s a) = get' s) (h : Slot rest name' get' R) :
    Slot (fieldThen name get set read rest) name' get' R where
  own := by
    intro s span v s' hv hs'
    rw [fieldThen_other hname] at hs'
    exact h.own hv hs'
  other := by
    intro s n span v s' hn hs'
    by_cases hfirst : n = name
    · subst hfirst
      obtain ⟨a, -, rfl⟩ := fieldThen_own.1 hs'
      exact hget s a
    · rw [fieldThen_other hfirst] at hs'
      exact h.other hn hs'

/-- Each name asks for what its own place takes. -/
lemma fieldThen_total {P Q : Prop} {s : σ} {n : String} {span : Span} {v : Value}
    (hread : (∃ a, read (get s) span v = .ok a) ↔ P) (hrest : (∃ s', rest s n span v = .ok s') ↔ Q) :
    (∃ s', fieldThen name get set read rest s n span v = .ok s') ↔ if n = name then P else Q := by
  by_cases hn : n = name
  · subst hn
    rw [if_pos rfl, ← hread]
    constructor
    · rintro ⟨s', hs'⟩
      obtain ⟨a, ha, -⟩ := fieldThen_own.1 hs'
      exact ⟨a, ha⟩
    · rintro ⟨a, ha⟩
      exact ⟨set s a, fieldThen_own.2 ⟨a, ha, rfl⟩⟩
  · rw [if_neg hn, ← hrest, fieldThen_other hn]

lemma nothingElse_total {s : σ} {n : String} {span : Span} {v : Value} :
    (∃ s', nothingElse s n span v = .ok s') ↔ True :=
  ⟨fun _ => trivial, fun _ => ⟨s, rfl⟩⟩

end Places

/-! ### Sections -/

section Sections

/-- What a section holds for a field: the entry of a table under its name, or the item of an array at
its place among the fields. -/
def sectionField (fields : List String) (name : String) : Value → Option Value
  | .table t => t.find? name
  | .array items _ => items[fields.idxOf name]?
  | .tables ts => ts[fields.idxOf name]?.map .table
  | .scalar _ _ => none

/-- A table, an array or a date. -/
def IsSection : Value → Prop
  | .scalar (.moment _) _ => True
  | .scalar _ _ => False
  | _ => True

/-- The entries of a table as fields. -/
def tableFields (t : Table Value) : List (String × Span × Value) :=
  t.entries.map fun e => (e.1.name, e.1.span, e.2)

/-- The items of an array as fields. -/
def arrayFields (fields : List String) (span : Span) (items : List Value) :
    List (String × Span × Value) :=
  (fields.zip items).map fun p => (p.1, span, p.2)

variable {t : Table Value} {fields : List String} {span : Span} {items : List Value}
  {name : String}

lemma distinct_tableFields (h : Proper (.table t)) : Distinct (tableFields t) := by
  refine ⟨?_, ?_⟩
  · rw [tableFields, List.map_map]
    exact h.nodup
  · intro f hf
    obtain ⟨e, he, rfl⟩ := List.mem_map.1 hf
    exact h.entry he

lemma lookup_tableFields : lookup (tableFields t) name = t.find? name := by
  rw [lookup, tableFields, List.find?_map, Option.map_map]
  rfl

lemma distinct_arrayFields (hfields : fields.Nodup) (h : ∀ v ∈ items, Proper v) :
    Distinct (arrayFields fields span items) := by
  refine ⟨?_, ?_⟩
  · rw [arrayFields, List.map_map]
    have hsub : ((fields.zip items).map Prod.fst).Sublist fields := by
      rw [List.zip_eq_zip_take_min, List.map_fst_zip (by simp)]
      exact List.take_sublist _ _
    exact hfields.sublist hsub
  · intro f hf
    obtain ⟨p, hp, rfl⟩ := List.mem_map.1 hf
    exact h p.2 (List.of_mem_zip hp).2

lemma lookup_arrayFields (hname : name ∈ fields) :
    lookup (arrayFields fields span items) name = items[fields.idxOf name]? := by
  induction fields generalizing items with
  | nil => exact absurd hname List.not_mem_nil
  | cons n fields ih =>
    cases items with
    | nil => rfl
    | cons v items =>
      have hcons : arrayFields (n :: fields) span (v :: items) =
          (n, span, v) :: arrayFields fields span items := rfl
      rw [hcons]
      by_cases hn : n = name
      · subst hn
        rw [lookup_cons_self, List.idxOf_cons_self]
        rfl
      · rw [lookup_cons_ne hn, List.idxOf_cons_ne _ hn, List.getElem?_cons_succ]
        exact ih ((List.mem_cons.1 hname).resolve_left (Ne.symm hn))

/-- The fields of a section are distinct, and a lookup finds what the section holds for a name. -/
theorem fields?_spec {v : Value} {fs : List (String × Span × Value)} (hfields : fields.Nodup)
    (hv : Proper v) (h : fields? fields span v = some fs) :
    Distinct fs ∧ ∀ name ∈ fields, lookup fs name = sectionField fields name v := by
  cases v with
  | scalar s sp =>
    cases s with
    | moment text =>
      cases h
      exact ⟨⟨List.nodup_nil, fun f hf => absurd hf List.not_mem_nil⟩, fun _ _ => rfl⟩
    | _ => cases h
  | array items sp =>
    cases h
    cases hv with
    | array parts =>
      exact ⟨distinct_arrayFields hfields parts, fun _ hname => lookup_arrayFields hname⟩
  | table t =>
    cases h
    exact ⟨distinct_tableFields hv, fun _ _ => lookup_tableFields⟩
  | tables ts =>
    have hfs : fs = arrayFields fields span (ts.map .table) := by
      rw [← Option.some.inj h, arrayFields, List.zip_map_right, List.map_map]
      rfl
    cases hv with
    | tables parts =>
      rw [hfs]
      refine ⟨distinct_arrayFields hfields ?_, ?_⟩
      · intro v hv
        obtain ⟨t, ht, rfl⟩ := List.mem_map.1 hv
        exact parts t ht
      · intro name hname
        rw [lookup_arrayFields hname, List.getElem?_map]
        rfl

lemma proper_sectionField {v x : Value} (hv : Proper v) (hx : sectionField fields name v = some x) :
    Proper x := by
  cases hv with
  | scalar => cases hx
  | array parts => exact parts x (List.mem_of_getElem? hx)
  | table nodup parts => exact (Proper.table nodup parts).find? hx
  | tables parts =>
    obtain ⟨t, ht, rfl⟩ := Option.map_eq_some_iff.1 hx
    exact parts t (List.mem_of_getElem? ht)

lemma fields?_isSome_iff {v : Value} : (∃ fs, fields? fields span v = some fs) ↔ IsSection v := by
  cases v with
  | scalar s sp =>
    cases s with
    | moment text => exact ⟨fun _ => trivial, fun _ => ⟨_, rfl⟩⟩
    | _ => exact ⟨fun ⟨_, h⟩ => (nomatch h), fun h => h.elim⟩
  | _ => exact ⟨fun _ => trivial, fun _ => ⟨_, rfl⟩⟩

lemma fit_eq_ok_iff {α : Type} {expected : Expected} {read? : Value → Option α} {v : Value} {a : α} :
    fit expected read? span v = .ok a ↔ read? v = some a := by
  unfold fit
  cases read? v with
  | none => exact ⟨fun h => (nomatch h), fun h => (nomatch h)⟩
  | some b => exact ⟨fun h => congrArg some (Except.ok.inj h), fun h => congrArg _ (Option.some.inj h)⟩

variable {σ : Type} {assign : σ → String → Span → Value → Except Mismatch σ}

lemma readSection_eq_ok_iff {expected : Expected} {v : Value} {s s' : σ} :
    readSection expected fields assign s span v = .ok s' ↔
      ∃ fs, fields? fields span v = some fs ∧ assignAll assign s fs = .ok s' := by
  rw [readSection, bind_eq_ok_iff]
  constructor
  · rintro ⟨fs, hfs, hall⟩
    exact ⟨fs, fit_eq_ok_iff.1 hfs, hall⟩
  · rintro ⟨fs, hfs, hall⟩
    exact ⟨fs, fit_eq_ok_iff.2 hfs, hall⟩

/-- A section is read exactly if it is one and what it holds for each field fits. -/
theorem readSection_total {F : String → Value → Prop}
    (hassign : ∀ s n span v, Proper v → ((∃ s', assign s n span v = .ok s') ↔ F n v))
    (hunknown : ∀ n ∉ fields, ∀ v, F n v) {expected : Expected} {v : Value} {s : σ}
    (hfields : fields.Nodup) (hv : Proper v) :
    (∃ s', readSection expected fields assign s span v = .ok s') ↔
      IsSection v ∧ ∀ n ∈ fields, ∀ x, sectionField fields n v = some x → F n x := by
  constructor
  · rintro ⟨s', h⟩
    obtain ⟨fs, hfs, hall⟩ := readSection_eq_ok_iff.1 h
    obtain ⟨hdistinct, hlookup⟩ := fields?_spec hfields hv hfs
    have hfit := (assignAll_total hassign hdistinct).1 ⟨s', hall⟩
    refine ⟨fields?_isSome_iff.1 ⟨fs, hfs⟩, ?_⟩
    intro n hn x hx
    rw [← hlookup n hn] at hx
    refine hdistinct.forall_iff.1 ?_ x hx
    rintro f hf rfl
    exact hfit f hf
  · rintro ⟨hsection, hfit⟩
    obtain ⟨fs, hfs⟩ := fields?_isSome_iff.2 hsection
    obtain ⟨hdistinct, hlookup⟩ := fields?_spec hfields hv hfs
    have hall : ∀ f ∈ fs, F f.1 f.2.2 := by
      intro f hf
      by_cases hn : f.1 ∈ fields
      · refine hdistinct.forall_iff.2 ?_ f hf rfl
        intro x hx
        rw [hlookup f.1 hn] at hx
        exact hfit f.1 hn x hx
      · exact hunknown f.1 hn f.2.2
    obtain ⟨s', hs'⟩ := (assignAll_total hassign hdistinct).2 hall
    exact ⟨s', readSection_eq_ok_iff.2 ⟨fs, hfs, hs'⟩⟩

end Sections

end MemberRelay.Proofs
