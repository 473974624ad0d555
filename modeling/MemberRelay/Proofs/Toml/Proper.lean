import Mathlib.Data.List.Nodup
import Mathlib.Tactic.Common
import MemberRelay.Proofs.Toml.Forms

/-!
# Proper documents

In the table of a document no name stands twice, at any depth, and every integer fits 64 bits with a
sign. Each reader yields proper values, and each statement keeps the table proper.
-/

namespace MemberRelay.Proofs
open Toml

/-- The integer fits 64 bits with a sign. -/
def FitsInt64 (n : Int) : Prop := -9223372036854775808 ≤ n ∧ n ≤ 9223372036854775807

/-- The names of a table in their order. -/
def names (t : Table Value) : List String := t.entries.map (·.1.name)

/-- No table in a value has a name twice, and all integers fit. -/
inductive Proper : Value → Prop where
  | scalar {s : Scalar} {span : Span} (fits : ∀ n, s = .integer n → FitsInt64 n) :
      Proper (.scalar s span)
  | array {items : List Value} {span : Span} (parts : ∀ v ∈ items, Proper v) :
      Proper (.array items span)
  | table {t : Table Value} (nodup : (names t).Nodup) (parts : ∀ e ∈ t.entries, Proper e.2) :
      Proper (.table t)
  | tables {ts : List (Table Value)} (parts : ∀ t ∈ ts, Proper (.table t)) : Proper (.tables ts)

/-! ### Tables -/

section Tables

variable {t : Table Value} {name : String} {key : Key} {v : Value}

lemma Proper.nodup (h : Proper (.table t)) : (names t).Nodup := by
  cases h with
  | table nodup _ => exact nodup

lemma Proper.entry (h : Proper (.table t)) {e : Key × Value} (he : e ∈ t.entries) :
    Proper e.2 := by
  cases h with
  | table _ parts => exact parts e he

/-- Only the entries count. -/
lemma Proper.of_entries (h : Proper (.table t)) {t' : Table Value} (ht : t'.entries = t.entries) :
    Proper (.table t') := by
  refine .table ?_ ?_
  · rw [names, ht]
    exact h.nodup
  · rw [ht]
    exact fun e he => h.entry he

lemma proper_empty (origin : Origin) : Proper (.table (Table.empty origin)) :=
  .table List.nodup_nil (fun _ he => absurd he List.not_mem_nil)

lemma find?_eq_some (h : t.find? name = some v) : ∃ e ∈ t.entries, e.1.name = name ∧ e.2 = v := by
  obtain ⟨e, he, hv⟩ := Option.map_eq_some_iff.1 h
  have hname := List.find?_some he
  exact ⟨e, List.mem_of_find?_eq_some he, beq_iff_eq.1 hname, hv⟩

lemma find?_eq_none_iff : t.find? name = none ↔ name ∉ names t := by
  rw [Table.find?, Option.map_eq_none_iff, List.find?_eq_none]
  constructor
  · intro h hmem
    obtain ⟨e, he, hname⟩ := List.mem_map.1 hmem
    exact h e he (beq_iff_eq.2 hname)
  · intro h e he hname
    exact h (List.mem_map.2 ⟨e, he, beq_iff_eq.1 hname⟩)

lemma Proper.find? (h : Proper (.table t)) (hv : t.find? name = some v) : Proper v := by
  obtain ⟨e, he, -, rfl⟩ := find?_eq_some hv
  exact h.entry he

lemma Proper.push (h : Proper (.table t)) (hkey : t.find? key.name = none) (hv : Proper v) :
    Proper (.table (t.push key v)) := by
  refine .table ?_ ?_
  · have hnames : names (t.push key v) = names t ++ [key.name] := by
      simp [names, Table.push]
    rw [hnames, List.nodup_append]
    refine ⟨h.nodup, List.nodup_singleton _, ?_⟩
    rintro a ha b hb rfl
    rw [List.mem_singleton.1 hb] at ha
    exact find?_eq_none_iff.1 hkey ha
  · intro e he
    rcases List.mem_append.1 he with he | he
    · exact h.entry he
    · rw [List.mem_singleton.1 he]
      exact hv

lemma names_set : names (t.set name v) = names t := by
  rw [names, names, Table.set, List.map_map]
  refine List.map_congr_left ?_
  intro e _
  simp only [Function.comp_apply]
  split <;> rfl

lemma Proper.set (h : Proper (.table t)) (hv : Proper v) : Proper (.table (t.set name v)) := by
  refine .table ?_ ?_
  · rw [names_set]
    exact h.nodup
  · intro e he
    obtain ⟨e', he', rfl⟩ := List.mem_map.1 he
    split
    · exact hv
    · exact h.entry he'

lemma names_erase : names (t.erase name) = (names t).filter (· != name) := by
  rw [names, names, Table.erase, List.filter_map]
  rfl

lemma Proper.erase (h : Proper (.table t)) : Proper (.table (t.erase name)) := by
  refine .table ?_ ?_
  · rw [names_erase]
    exact h.nodup.filter _
  · exact fun e he => h.entry (List.mem_filter.1 he).1

lemma find?_erase : (t.erase name).find? name = none := by
  rw [find?_eq_none_iff, names_erase]
  intro hmem
  have hne := (List.mem_filter.1 hmem).2
  simp at hne

end Tables

/-- What each step keeps holds at the end. -/
lemma foldlM_keeps {σ β : Type} {f : σ → β → Option σ} {I : σ → Prop} {P : β → Prop}
    (hstep : ∀ s b s', I s → P b → f s b = some s' → I s') {bs : List β} (hbs : ∀ b ∈ bs, P b)
    {s s' : σ} (hs : I s) (h : bs.foldlM f s = some s') : I s' := by
  induction bs generalizing s with
  | nil =>
    rw [← Option.some.inj h]
    exact hs
  | cons b bs ih =>
    rw [List.forall_mem_cons] at hbs
    rw [List.foldlM_cons] at h
    obtain ⟨s₁, hfirst, hrest⟩ := Option.bind_eq_some_iff.1 h
    exact ih hbs.2 (hstep s b s₁ hs hbs.1 hfirst) hrest

/-! ### Statements -/

section Statements

variable {change : Table Value → Option (Table Value)}

/-- A change that keeps tables proper. -/
def KeepsProper (change : Table Value → Option (Table Value)) : Prop :=
  ∀ t t', Proper (.table t) → change t = some t' → Proper (.table t')

lemma proper_tables_append {ts : List (Table Value)} {child : Table Value}
    (h : ∀ t ∈ ts, Proper (.table t)) (hchild : Proper (.table child)) :
    Proper (.tables (ts ++ [child])) := by
  refine .tables ?_
  intro t ht
  rcases List.mem_append.1 ht with ht | ht
  · exact h t ht
  · rw [List.mem_singleton.1 ht]
    exact hchild

lemma Proper.tables_mem {ts : List (Table Value)} (h : Proper (.tables ts)) :
    ∀ t ∈ ts, Proper (.table t) := by
  cases h with
  | tables htables => exact htables

lemma Proper.setLast {ts : List (Table Value)} {child : Table Value} (h : Proper (.tables ts))
    (hchild : Proper (.table child)) : Proper (.tables (ts.dropLast ++ [child])) := by
  apply proper_tables_append _ hchild
  exact fun t ht => h.tables_mem t (List.dropLast_subset ts ht)

lemma Proper.getLast {ts : List (Table Value)} {child : Table Value} (h : Proper (.tables ts))
    (hlast : ts.getLast? = some child) : Proper (.table child) :=
  h.tables_mem child (List.mem_of_getLast? hlast)

/-- What is kept in the table at the end of a path is kept in the whole. -/
lemma alter_proper (dotted : Bool) (hchange : KeepsProper change) (path : List Key) :
    KeepsProper (Table.alter dotted change path) := by
  induction path with
  | nil => exact hchange
  | cons key path ih =>
    intro t t' ht halter
    rw [Table.alter] at halter
    split at halter
    · next hfind =>
      obtain ⟨child, hchild, rfl⟩ := Option.map_eq_some_iff.1 halter
      exact ht.push hfind (ih _ _ (proper_empty _) hchild)
    · next child hfind =>
      split at halter
      · obtain ⟨child', hchild, rfl⟩ := Option.map_eq_some_iff.1 halter
        exact ht.set (ih _ _ (ht.find? hfind) hchild)
      · cases halter
    · next ts hfind =>
      split at halter
      · next child hlast =>
        obtain ⟨child', hchild, rfl⟩ := Option.map_eq_some_iff.1 halter
        have hts := ht.find? hfind
        exact ht.set (hts.setLast (ih _ _ (hts.getLast hlast) hchild))
      · cases halter
    · cases halter

lemma within_proper (hchange : KeepsProper change) (path : List Key) :
    KeepsProper (Table.within change path) := by
  induction path with
  | nil => exact hchange
  | cons key path ih =>
    intro t t' ht hwithin
    rw [Table.within] at hwithin
    split at hwithin
    · next child hfind =>
      obtain ⟨child', hchild, rfl⟩ := Option.map_eq_some_iff.1 hwithin
      exact ht.set (ih _ _ (ht.find? hfind) hchild)
    · next ts hfind =>
      obtain ⟨child, hlast, hmap⟩ := Option.bind_eq_some_iff.1 hwithin
      obtain ⟨child', hchild, rfl⟩ := Option.map_eq_some_iff.1 hmap
      have hts := ht.find? hfind
      exact ht.set (hts.setLast (ih _ _ (hts.getLast hlast) hchild))
    · cases hwithin

lemma assign_proper (path : List Key) (key : Key) {v : Value} (hv : Proper v) :
    KeepsProper (Table.assign path key v) := by
  intro t t' ht hassign
  refine alter_proper true ?_ path t t' ht hassign
  intro target target' htarget hpush
  dsimp only at hpush
  split at hpush
  · cases hpush
  · split at hpush
    · cases hpush
    · next hnone =>
      rw [← Option.some.inj hpush]
      exact htarget.push (Option.not_isSome_iff_eq_none.1 hnone) hv

lemma openTable_proper (path : List Key) (key : Key) (span : Span) :
    KeepsProper (Table.openTable path key span) := by
  intro t t' ht hopen
  refine alter_proper false ?_ path t t' ht hopen
  intro parent parent' hparent hpush
  dsimp only at hpush
  split at hpush
  · next hnone =>
    rw [← Option.some.inj hpush]
    exact hparent.push hnone ((proper_empty .header).of_entries rfl)
  · next child hfind =>
    split at hpush
    · rw [← Option.some.inj hpush]
      exact hparent.erase.push find?_erase ((hparent.find? hfind).of_entries rfl)
    · cases hpush
  · cases hpush

lemma openElement_proper (path : List Key) (key : Key) (span : Span) :
    KeepsProper (Table.openElement path key span) := by
  intro t t' ht hopen
  refine alter_proper false ?_ path t t' ht hopen
  have hnew : Proper (.table ⟨.header, some span, []⟩) := (proper_empty .header).of_entries rfl
  intro parent parent' hparent hpush
  dsimp only at hpush
  split at hpush
  · next hnone =>
    rw [← Option.some.inj hpush]
    exact hparent.push hnone (proper_tables_append (fun t ht => absurd ht List.not_mem_nil) hnew)
  · next ts hfind =>
    rw [← Option.some.inj hpush]
    have hts := hparent.find? hfind
    exact hparent.set (proper_tables_append hts.tables_mem hnew)
  · cases hpush

lemma extend_proper {t : Table Value} (h : Proper (.table t)) (v : Value) :
    Proper (.table (t.extend v)) := by
  refine h.of_entries ?_
  rw [Table.extend]
  split <;> rfl

/-- The value of a statement, if it has one, is proper. -/
def Statement.IsProper : Statement → Prop
  | .assign a => Proper a.value
  | _ => True

lemma add_proper {d d' : Draft} {s : Statement} (hd : Proper (.table d.root))
    (hs : Statement.IsProper s) (hadd : d.add s = some d') : Proper (.table d'.root) := by
  cases s with
  | assign a =>
    obtain ⟨root, hroot, rfl⟩ := Option.map_eq_some_iff.1 hadd
    refine within_proper ?_ d.current d.root root hd hroot
    intro t t' ht hassign
    exact assign_proper a.path a.key hs _ _ (extend_proper ht a.value) hassign
  | openTable path key span =>
    obtain ⟨root, hroot, rfl⟩ := Option.map_eq_some_iff.1 hadd
    exact openTable_proper path key span _ _ hd hroot
  | openElement path key span =>
    obtain ⟨root, hroot, rfl⟩ := Option.map_eq_some_iff.1 hadd
    exact openElement_proper path key span _ _ hd hroot

lemma foldlM_add_proper {statements : List Statement} {d d' : Draft}
    (hstatements : ∀ s ∈ statements, Statement.IsProper s) (hd : Proper (.table d.root))
    (h : statements.foldlM Draft.add d = some d') : Proper (.table d'.root) :=
  foldlM_keeps (I := fun d : Draft => Proper (.table d.root)) (fun _ _ _ => add_proper) hstatements
    hd h

end Statements

/-! ### Numbers -/

section Numbers

variable {x : Number} {n : Int} {cs rest : List Char}

lemma below?_lt {base bound m : Nat} {ds : List Char} (hbase : 1 ≤ base) (hbound : 0 < bound)
    (h : Digits.below? base bound ds = some m) : m < bound := by
  rw [Digits.below?_eq hbase hbound] at h
  obtain ⟨hlt, heq⟩ := Option.ite_none_right_eq_some.1 h
  rwa [← Option.some.inj heq]

lemma integer?_fits {negative : Bool} {base : Nat} {ds rest' : List Char} (hbase : 1 ≤ base)
    (h : integer? negative base ds rest = some (.integer n, rest')) : FitsInt64 n := by
  rw [integer?] at h
  have hsize : UInt64.size / 2 = 9223372036854775808 := rfl
  split at h
  all_goals
    obtain ⟨m, hm, heq⟩ := Option.map_eq_some_iff.1 h
    obtain ⟨k, hk, hcast⟩ := Option.bind_eq_some_iff.1 hm
    have hlt := below?_lt hbase (by omega) hk
    cases hcast
    cases heq
    constructor <;> omega

lemma prefixed?_fits {base : Nat} (hbase : 1 ≤ base)
    (h : prefixed? base cs = some (.integer n, rest)) : FitsInt64 n := by
  obtain ⟨⟨ds, stop⟩, -, hinteger⟩ := Option.bind_eq_some_iff.1 h
  exact integer?_fits hbase hinteger

lemma float?_ne_integer {negative : Bool} {whole : List Char} :
    float? negative whole cs ≠ some (.integer n, rest) := by
  intro h
  obtain ⟨⟨fraction, cs'⟩, -, h⟩ := Option.bind_eq_some_iff.1 h
  obtain ⟨⟨exponent, stop⟩, -, h⟩ := Option.bind_eq_some_iff.1 h
  dsimp only at h
  split at h <;> cases h

lemma unsigned?_fits {negative : Bool} (h : unsigned? negative cs = some (.integer n, rest)) :
    FitsInt64 n := by
  obtain ⟨⟨whole, stop⟩, -, h⟩ := Option.bind_eq_some_iff.1 h
  dsimp only at h
  split at h
  · exact absurd h float?_ne_integer
  · exact integer?_fits (by decide) h

lemma number?_fits (h : number? cs = some (.integer n, rest)) : FitsInt64 n := by
  unfold number? at h
  split at h
  · exact prefixed?_fits (by decide) h
  · exact prefixed?_fits (by decide) h
  · exact prefixed?_fits (by decide) h
  · dsimp only at h
    split at h
    · cases h
    · cases h
    · exact unsigned?_fits h

end Numbers

/-! ### Values -/

section Values

/-- The reader yields proper values. -/
def YieldsProper (read? : Reader Value) : Prop := ∀ cs v rest, read? cs = some (v, rest) → Proper v

variable {read? : Reader Value} (hread : YieldsProper read?)

lemma scalar?_proper {cs rest : List Char} {s : Scalar} (span : Span)
    (h : scalar? cs = some (s, rest)) : Proper (.scalar s span) := by
  refine .scalar ?_
  rintro n rfl
  unfold scalar? at h
  split at h
  · cases h
  · cases h
  · obtain ⟨_, -, heq⟩ := Option.map_eq_some_iff.1 h
    cases heq
  · obtain ⟨_, -, heq⟩ := Option.map_eq_some_iff.1 h
    cases heq
  · split at h
    · cases h
    · obtain ⟨⟨x, stop⟩, hnumber, heq⟩ := Option.map_eq_some_iff.1 h
      cases x with
      | integer m =>
        cases heq
        exact number?_fits hnumber
      | float x => cases heq

include hread

lemma itemsFrom_proper {done items : List Value} {fuel : Nat} {cs rest : List Char}
    (hdone : ∀ v ∈ done, Proper v) (h : itemsFrom read? done fuel cs = some (items, rest)) :
    ∀ v ∈ items, Proper v := by
  induction fuel generalizing done cs with
  | zero => cases h
  | succ fuel ih =>
    rw [itemsFrom] at h
    split at h
    · cases h
      exact fun v hv => hdone v (List.mem_reverse.1 hv)
    · obtain ⟨⟨item, stop⟩, hitem, h⟩ := Option.bind_eq_some_iff.1 h
      have hcons : ∀ v ∈ item :: done, Proper v :=
        List.forall_mem_cons.2 ⟨hread _ _ _ hitem, hdone⟩
      dsimp only at h
      split at h
      · exact ih hcons h
      · cases h
        exact fun v hv => hcons v (List.mem_reverse.1 hv)
      · cases h

lemma assignment?_proper {a : Assignment} {cs rest : List Char}
    (h : assignment? read? cs = some (a, rest)) : Proper a.value := by
  obtain ⟨⟨⟨path, key⟩, cs₁⟩, -, h⟩ := Option.bind_eq_some_iff.1 h
  obtain ⟨cs₂, -, h⟩ := Option.bind_eq_some_iff.1 h
  obtain ⟨⟨v, cs₃⟩, hv, h⟩ := Option.bind_eq_some_iff.1 h
  cases h
  exact hread _ _ _ hv

lemma assignmentsFrom_proper {done assignments : List Assignment} {fuel : Nat}
    {cs rest : List Char} (hdone : ∀ a ∈ done, Proper a.value)
    (h : assignmentsFrom read? done fuel cs = some (assignments, rest)) :
    ∀ a ∈ assignments, Proper a.value := by
  induction fuel generalizing done cs with
  | zero => cases h
  | succ fuel ih =>
    obtain ⟨⟨a, stop⟩, ha, h⟩ := Option.bind_eq_some_iff.1 h
    have hcons : ∀ b ∈ a :: done, Proper b.value :=
      List.forall_mem_cons.2 ⟨assignment?_proper hread ha, hdone⟩
    dsimp only at h
    split at h
    · exact ih hcons h
    · cases h
      exact fun b hb => hcons b (List.mem_reverse.1 hb)
    · cases h

lemma braced?_proper {assignments : List Assignment} {cs rest : List Char}
    (h : braced? read? cs = some (assignments, rest)) : ∀ a ∈ assignments, Proper a.value := by
  rw [braced?] at h
  split at h
  · cases h
    exact fun a ha => absurd ha List.not_mem_nil
  · exact assignmentsFrom_proper hread (fun a ha => absurd ha List.not_mem_nil) h

omit hread

lemma ofAssignments?_proper {assignments : List Assignment} {t : Table Value}
    (hassignments : ∀ a ∈ assignments, Proper a.value) (h : ofAssignments? assignments = some t) :
    Proper (.table t) :=
  foldlM_keeps (I := fun t => Proper (.table t))
    (fun t a t' ht ha hassign => assign_proper a.path a.key ha t t' ht hassign) hassignments
    (proper_empty _) h

lemma value?_proper (depth : Nat) : YieldsProper (value? depth) := by
  induction depth with
  | zero =>
    intro cs v rest h
    obtain ⟨⟨s, stop⟩, hs, heq⟩ := Option.map_eq_some_iff.1 h
    cases heq
    exact scalar?_proper _ hs
  | succ depth ih =>
    intro cs v rest h
    cases value?_form h with
    | scalar hs => exact scalar?_proper _ hs
    | array hitems =>
      exact .array (itemsFrom_proper ih (fun v hv => absurd hv List.not_mem_nil) hitems)
    | braces hbraced ht =>
      have hassignments := braced?_proper ih hbraced
      exact (ofAssignments?_proper hassignments ht).of_entries rfl

end Values

/-! ### Documents -/

section Documents

variable {cs rest : List Char}

lemma statement?_proper {s : Statement} (h : statement? cs = some (s, rest)) :
    Statement.IsProper s := by
  cases statement?_form h with
  | assign ha => exact assignment?_proper (value?_proper _) ha
  | openTable => trivial
  | openElement => trivial

lemma statementsFrom_proper {done statements : List Statement} {fuel : Nat}
    (hdone : ∀ s ∈ done, Statement.IsProper s)
    (h : statementsFrom done fuel cs = some statements) :
    ∀ s ∈ statements, Statement.IsProper s := by
  induction fuel generalizing done cs with
  | zero => cases h
  | succ fuel ih =>
    rw [statementsFrom] at h
    split at h
    · cases h
      exact fun s hs => hdone s (List.mem_reverse.1 hs)
    · obtain ⟨stop, -, h⟩ := Option.bind_eq_some_iff.1 h
      exact ih hdone h
    · split at h
      · exact ih hdone h
      · obtain ⟨⟨s, stop⟩, hs, h⟩ := Option.bind_eq_some_iff.1 h
        have hcons : ∀ s' ∈ s :: done, Statement.IsProper s' :=
          List.forall_mem_cons.2 ⟨statement?_proper hs, hdone⟩
        exact ih hcons h

lemma statements?_proper {statements : List Statement} (h : statements? cs = some statements) :
    ∀ s ∈ statements, Statement.IsProper s := by
  have hnil : ∀ s ∈ ([] : List Statement), Statement.IsProper s :=
    fun s hs => absurd hs List.not_mem_nil
  unfold statements? at h
  split at h
  · exact statementsFrom_proper hnil h
  · exact statementsFrom_proper hnil h

/-- The table of a document is proper. -/
theorem document?_proper {t : Table Value} (h : document? cs = some t) : Proper (.table t) := by
  obtain ⟨statements, hstatements, h⟩ := Option.bind_eq_some_iff.1 h
  obtain ⟨d, hd, rfl⟩ := Option.map_eq_some_iff.1 h
  exact foldlM_add_proper (statements?_proper hstatements) (proper_empty _) hd

end Documents

end MemberRelay.Proofs
