import MemberRelay.Proofs.Toml.Address
import MemberRelay.Toml.Document

/-!
# Revisions of a document

A revision gives scalars another content and moves all pieces of the text, and leaves names and the
kinds of values alone. Building a table from statements never looks at what a revision changes, so
revised statements build the revised table.
-/

namespace MemberRelay.Proofs
open Toml

/-- What becomes of the ends of a text and of the scalars in it. -/
structure Revision where
  text : List Char → List Char
  scalar : Span → Scalar → Scalar

namespace Revision

variable (r : Revision)

def span (s : Span) : Span := ⟨r.text s.start, r.text s.stop⟩

def key (k : Key) : Key := ⟨k.name, r.span k.span⟩

lemma sizeOf_entry_lt {t : Table Value} {e : Key × Value} (h : e ∈ t.entries) :
    sizeOf e.2 < sizeOf t := by
  obtain ⟨origin, span, entries⟩ := t
  have hentry := List.sizeOf_lt_of_mem h
  obtain ⟨key, v⟩ := e
  simp only [Prod.mk.sizeOf_spec] at hentry
  simp only [Table.mk.sizeOf_spec]
  omega

mutual

def value : Value → Value
  | .scalar s span => .scalar (r.scalar span s) (r.span span)
  | .array items span => .array (items.map fun v => value v) (r.span span)
  | .table t => .table (table t)
  | .tables ts => .tables (ts.map fun t => table t)
termination_by v => sizeOf v

def table (t : Table Value) : Table Value :=
  ⟨t.origin, t.span.map r.span, t.entries.map fun e => (r.key e.1, value e.2)⟩
termination_by sizeOf t
decreasing_by
  exact sizeOf_entry_lt ‹_›

end

def assignment (a : Assignment) : Assignment := ⟨a.path.map r.key, r.key a.key, r.value a.value⟩

def statement : Statement → Statement
  | .assign a => .assign (r.assignment a)
  | .openTable path key span => .openTable (path.map r.key) (r.key key) (r.span span)
  | .openElement path key span => .openElement (path.map r.key) (r.key key) (r.span span)

def draft (d : Draft) : Draft := ⟨r.table d.root, d.current.map r.key⟩

/-! ### Values and tables -/

section Tables

variable {t : Table Value} {n : String} {k : Key} {v : Value} {s : Scalar} {items : List Value}
  {ts : List (Table Value)} {sp : Span}

@[simp] lemma value_scalar : r.value (.scalar s sp) = .scalar (r.scalar sp s) (r.span sp) := by
  rw [value]

@[simp] lemma value_array : r.value (.array items sp) = .array (items.map r.value) (r.span sp) := by
  rw [value]

@[simp] lemma value_table : r.value (.table t) = .table (r.table t) := by
  rw [value]

@[simp] lemma value_tables : r.value (.tables ts) = .tables (ts.map r.table) := by
  rw [value]

lemma table_eq : r.table t =
    ⟨t.origin, t.span.map r.span, t.entries.map fun e => (r.key e.1, r.value e.2)⟩ := by
  rw [table]

lemma table_mk {origin : Origin} {sp? : Option Span} {es : List (Key × Value)} :
    r.table ⟨origin, sp?, es⟩ =
      ⟨origin, sp?.map r.span, es.map fun e => (r.key e.1, r.value e.2)⟩ :=
  r.table_eq

@[simp] lemma table_origin : (r.table t).origin = t.origin := by
  rw [table_eq]

@[simp] lemma table_span : (r.table t).span = t.span.map r.span := by
  rw [table_eq]

@[simp] lemma table_entries :
    (r.table t).entries = t.entries.map fun e => (r.key e.1, r.value e.2) := by
  rw [table_eq]

@[simp] lemma key_name : (r.key k).name = k.name := rfl

@[simp] lemma table_empty {origin : Origin} : r.table (Table.empty origin) = Table.empty origin := by
  rw [table_eq]
  rfl

@[simp] lemma table_isOpen {dotted : Bool} : (r.table t).isOpen dotted = t.isOpen dotted := by
  rw [Table.isOpen, table_origin, ← Table.isOpen]

lemma table_find? : (r.table t).find? n = (t.find? n).map r.value := by
  rw [Table.find?, table_entries, List.find?_map, Option.map_map, Table.find?, Option.map_map]
  rfl

lemma table_push : r.table (t.push k v) = (r.table t).push (r.key k) (r.value v) := by
  simp [table_eq, Table.push]

lemma table_set : r.table (t.set n v) = (r.table t).set n (r.value v) := by
  simp only [table_eq, Table.set, List.map_map, Table.mk.injEq, true_and]
  refine List.map_congr_left fun e _ => ?_
  by_cases hn : e.1.name = n
  · simp [hn]
  · simp [hn]

lemma table_erase : r.table (t.erase n) = (r.table t).erase n := by
  simp [table_eq, Table.erase, List.filter_map, Function.comp_def]

lemma value_span? : (r.value v).span? = v.span?.map r.span := by
  cases v with
  | scalar s sp => simp [Value.span?]
  | array items sp => simp [Value.span?]
  | table t => simp [Value.span?]
  | tables ts =>
    have hbind : ∀ t? : Option (Table Value),
        (t?.map r.table).bind Table.span = (t?.bind Table.span).map r.span := by
      intro t?
      cases t? with
      | none => rfl
      | some t => exact r.table_span
    rw [value_tables, Value.span?, List.head?_map, List.getLast?_map, hbind, hbind, Value.span?]
    cases ts.head?.bind Table.span with
    | none => rfl
    | some first =>
      cases ts.getLast?.bind Table.span with
      | none => rfl
      | some last => rfl

lemma table_extend : r.table (t.extend v) = (r.table t).extend (r.value v) := by
  rw [Table.extend, Table.extend, table_span, value_span?]
  cases t.span with
  | none => rfl
  | some s =>
    cases v.span? with
    | none => rfl
    | some s' => simp [table_eq, span]

lemma valueAt?_value {a : Address} : valueAt? a (r.value v) = (valueAt? a v).map r.value := by
  induction a generalizing v with
  | nil => rfl
  | cons s a ih =>
    have hbind : ∀ v? : Option Value, (v?.map r.value).bind (valueAt? a) =
        (v?.bind (valueAt? a)).map r.value := by
      intro v?
      cases v? with
      | none => rfl
      | some v => exact ih
    cases s with
    | name n =>
      cases v with
      | table t => rw [value_table, valueAt?, valueAt?, table_find?, hbind]
      | _ => simp [valueAt?]
    | index i =>
      cases v with
      | array items sp => rw [value_array, valueAt?, valueAt?, List.getElem?_map, hbind]
      | tables ts =>
        rw [value_tables, valueAt?, valueAt?, List.getElem?_map]
        cases ts[i]? with
        | none => rfl
        | some t =>
          have hnext := ih (v := .table t)
          rwa [value_table] at hnext
      | _ => simp [valueAt?]

end Tables

/-! ### Building -/

section Building

variable {change change' : Table Value → Option (Table Value)} {path : List Key} {k : Key}
  {v : Value} {t : Table Value} {sp : Span}

lemma table_alter {dotted : Bool} (hchange : ∀ t, change' (r.table t) = (change t).map r.table) :
    Table.alter dotted change' (path.map r.key) (r.table t) =
      (Table.alter dotted change path t).map r.table := by
  induction path generalizing t with
  | nil => exact hchange t
  | cons key path ih =>
    rw [List.map_cons, Table.alter, Table.alter, key_name, table_find?]
    cases t.find? key.name with
    | none =>
      have hmade := ih (t := Table.empty (if dotted then .dotted else .passing))
      rw [table_empty] at hmade
      simp [hmade, Function.comp_def, table_push]
    | some v =>
      cases v with
      | scalar s sp => simp
      | array items sp => simp
      | table child =>
        simp only [Option.map_some, value_table, table_isOpen, ih]
        split
        · simp [Function.comp_def, table_set]
        · rfl
      | tables ts =>
        simp only [Option.map_some, value_tables, List.getLast?_map]
        cases ts.getLast? with
        | none => rfl
        | some child => simp [ih, Function.comp_def, table_set, List.map_dropLast]

lemma table_within (hchange : ∀ t, change' (r.table t) = (change t).map r.table) :
    Table.within change' (path.map r.key) (r.table t) =
      (Table.within change path t).map r.table := by
  induction path generalizing t with
  | nil => exact hchange t
  | cons key path ih =>
    rw [List.map_cons, Table.within, Table.within, key_name, table_find?]
    cases t.find? key.name with
    | none => rfl
    | some v =>
      cases v with
      | scalar s sp => simp
      | array items sp => simp
      | table child => simp [ih, Function.comp_def, table_set]
      | tables ts =>
        simp only [Option.map_some, value_tables, List.getLast?_map]
        cases ts.getLast? with
        | none => rfl
        | some child => simp [ih, Function.comp_def, table_set, List.map_dropLast]

lemma table_assign : (r.table t).assign (path.map r.key) (r.key k) (r.value v) =
    (t.assign path k v).map r.table := by
  refine r.table_alter fun u => ?_
  simp only [List.isEmpty_map, table_origin, key_name, table_find?, Option.isSome_map]
  split
  · rfl
  · split
    · rfl
    · rw [Option.map_some, table_push]

lemma table_openTable : (r.table t).openTable (path.map r.key) (r.key k) (r.span sp) =
    (t.openTable path k sp).map r.table := by
  refine r.table_alter fun u => ?_
  simp only [key_name, table_find?]
  cases u.find? k.name with
  | none => simp [table_push, table_mk]
  | some v =>
    cases v with
    | table child =>
      simp only [Option.map_some, value_table, table_origin]
      split
      · simp [table_push, table_erase, table_mk]
      · rfl
    | _ => simp

lemma table_openElement : (r.table t).openElement (path.map r.key) (r.key k) (r.span sp) =
    (t.openElement path k sp).map r.table := by
  refine r.table_alter fun u => ?_
  simp only [key_name, table_find?]
  cases u.find? k.name with
  | none => simp [table_push, table_mk]
  | some v =>
    cases v with
    | tables ts => simp [table_set, table_mk]
    | _ => simp

lemma draft_add (d : Draft) (s : Statement) :
    (r.draft d).add (r.statement s) = (d.add s).map r.draft := by
  cases s with
  | assign a =>
    have hwithin : Table.within (fun t => (t.extend (r.value a.value)).assign (a.path.map r.key)
        (r.key a.key) (r.value a.value)) (d.current.map r.key) (r.table d.root) =
        (Table.within (fun t => (t.extend a.value).assign a.path a.key a.value) d.current d.root).map
          r.table :=
      r.table_within fun t => by rw [← table_extend, table_assign]
    simp only [statement, assignment, Draft.add, draft, hwithin, Option.map_map]
    rfl
  | openTable path k sp =>
    simp only [statement, Draft.add, draft, table_openTable, Option.map_map]
    simp [Function.comp_def, draft]
  | openElement path k sp =>
    simp only [statement, Draft.add, draft, table_openElement, Option.map_map]
    simp [Function.comp_def, draft]

lemma foldlM_map {σ τ : Type} {f : σ → τ → Option σ} {g : σ → σ} {h : τ → τ}
    (hstep : ∀ s x, f (g s) (h x) = (f s x).map g) (s : σ) (xs : List τ) :
    (xs.map h).foldlM f (g s) = (xs.foldlM f s).map g := by
  induction xs generalizing s with
  | nil => rfl
  | cons x xs ih =>
    rw [List.map_cons, List.foldlM_cons, List.foldlM_cons, hstep]
    cases f s x with
    | none => rfl
    | some s => exact ih s

theorem ofStatements?_map (ss : List Statement) :
    ofStatements? (ss.map r.statement) = (ofStatements? ss).map r.table := by
  have hstart : r.draft ⟨Table.empty .header, []⟩ = ⟨Table.empty .header, []⟩ := by
    simp [draft]
  have hfold := foldlM_map r.draft_add ⟨Table.empty .header, []⟩ ss
  rw [hstart] at hfold
  rw [ofStatements?, hfold, ofStatements?, Option.map_map, Option.map_map]
  rfl

theorem ofAssignments?_map (as : List Assignment) :
    ofAssignments? (as.map r.assignment) = (ofAssignments? as).map r.table := by
  have hfold := foldlM_map (f := fun (t : Table Value) (a : Assignment) =>
    t.assign a.path a.key a.value) (g := r.table) (h := r.assignment)
    (fun t a => r.table_assign) (Table.empty .braces) as
  rw [table_empty] at hfold
  exact hfold

end Building

end Revision

end MemberRelay.Proofs
