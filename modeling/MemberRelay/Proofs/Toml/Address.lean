import MemberRelay.Proofs.Toml.Proper

/-!
# Addresses in a document

An address leads from a value to one of its parts, by names in tables and by places in lists. A
change puts one value at one address: what lies beside it stays, and the tables on the way stay what
they are.
-/

namespace MemberRelay.Proofs
open Toml

inductive Selector where
  | name (n : String)
  | index (i : Nat)
  deriving DecidableEq

abbrev Address := List Selector

/-- The value at an address below a value. -/
def valueAt? : Address → Value → Option Value
  | [], v => some v
  | .name n :: a, .table t => (t.find? n).bind (valueAt? a)
  | .index i :: a, .tables ts => ts[i]?.bind fun t => valueAt? a (.table t)
  | .index i :: a, .array items _ => items[i]?.bind (valueAt? a)
  | _ :: _, _ => none

/-- A value that nothing can be added to. -/
def IsClosed : Value → Prop
  | .table t => t.origin = .braces
  | .tables _ => False
  | _ => True

/-! ### Values at addresses -/

section Values

variable {a b c : Address} {v w : Value} {t t' : Table Value} {ts : List (Table Value)}

lemma valueAt?_append (a b : Address) (v : Value) :
    valueAt? (a ++ b) v = (valueAt? a v).bind (valueAt? b) := by
  induction a generalizing v with
  | nil => rfl
  | cons s a ih =>
    have hbind : ∀ v? : Option Value,
        v?.bind (valueAt? (a ++ b)) = (v?.bind (valueAt? a)).bind (valueAt? b) := by
      intro v?
      rw [Option.bind_assoc]
      exact Option.bind_congr fun w _ => ih w
    cases s with
    | name n =>
      cases v with
      | table t => exact hbind (t.find? n)
      | _ => rfl
    | index i =>
      cases v with
      | array items span => exact hbind items[i]?
      | tables ts =>
        rw [List.cons_append, valueAt?, valueAt?, Option.bind_assoc]
        exact Option.bind_congr fun t _ => ih (.table t)
      | _ => rfl

lemma valueAt?_append_of_some (h : valueAt? a v = some w) (b : Address) :
    valueAt? (a ++ b) v = valueAt? b w := by
  rw [valueAt?_append, h, Option.bind_some]

lemma valueAt?_append_of_none (h : valueAt? a v = none) (b : Address) :
    valueAt? (a ++ b) v = none := by
  rw [valueAt?_append, h, Option.bind_none]

lemma valueAt?_of_above (h : valueAt? a v = none) (hab : a <+: b) : valueAt? b v = none := by
  obtain ⟨c, rfl⟩ := hab
  exact valueAt?_append_of_none h c

/-- Only the entries of a table count for what is below it. -/
lemma valueAt?_congr (h : t'.entries = t.entries) (ha : a ≠ []) :
    valueAt? a (.table t') = valueAt? a (.table t) := by
  cases a with
  | nil => exact absurd rfl ha
  | cons s a =>
    cases s with
    | name n => rw [valueAt?, valueAt?, Table.find?, Table.find?, h]
    | index i => rfl

lemma valueAt?_empty (h : t.entries = []) (ha : a ≠ []) : valueAt? a (.table t) = none := by
  cases a with
  | nil => exact absurd rfl ha
  | cons s a =>
    cases s with
    | name n => rw [valueAt?, Table.find?, h, List.find?_nil, Option.map_none, Option.bind_none]
    | index i => rfl

lemma valueAt?_scalar {s : Scalar} {span : Span} (ha : a ≠ []) :
    valueAt? a (.scalar s span) = none := by
  cases a with
  | nil => exact absurd rfl ha
  | cons s a => cases s <;> rfl

/-- The last table is all that one more of them changes. -/
lemma valueAt?_concat (hc : c ≠ []) (hlast : ∀ d, c ≠ .index ts.length :: d) :
    valueAt? c (.tables (ts ++ [t])) = valueAt? c (.tables ts) := by
  cases c with
  | nil => exact absurd rfl hc
  | cons s c =>
    cases s with
    | name n => rfl
    | index i =>
      have hi : i ≠ ts.length := by
        rintro rfl
        exact hlast c rfl
      have hget : (ts ++ [t])[i]? = ts[i]? := by
        rcases Nat.lt_or_gt_of_ne hi with hlt | hgt
        · exact List.getElem?_append_left hlt
        · rw [List.getElem?_eq_none (by simp; omega), List.getElem?_eq_none (by omega)]
      rw [valueAt?, valueAt?, hget]

lemma valueAt?_last : valueAt? (.index ts.length :: c) (.tables (ts ++ [t])) =
    valueAt? c (.table t) := by
  rw [valueAt?, List.getElem?_concat_length]
  rfl

lemma valueAt?_beyond : valueAt? (.index ts.length :: c) (.tables ts) = none := by
  rw [valueAt?, List.getElem?_eq_none (Nat.le_refl _)]
  rfl

end Values

/-! ### Entries of tables -/

section Entries

variable {t : Table Value} {key : Key} {v : Value} {n m : String}

lemma find?_push : (t.push key v).find? m =
    (t.find? m).or (if key.name = m then some v else none) := by
  rw [Table.find?, Table.push, List.find?_append, Option.map_or, ← Table.find?]
  congr 1
  by_cases h : key.name = m
  · simp [h]
  · simp [h]

lemma find?_push_of_none (h : t.find? key.name = none) :
    (t.push key v).find? m = if m = key.name then some v else t.find? m := by
  rw [find?_push]
  by_cases hm : m = key.name
  · rw [if_pos hm, if_pos hm.symm, hm, h, Option.none_or]
  · rw [if_neg hm, if_neg (Ne.symm hm), Option.or_none]

lemma find?_set_of_some {old : Value} (h : t.find? n = some old) :
    (t.set n v).find? m = if m = n then some v else t.find? m := by
  rw [Table.find?] at h
  rw [Table.find?, Table.find?, Table.set, List.find?_map]
  have hnames : ((fun e : Key × Value => e.1.name == m) ∘
      fun e => if e.1.name == n then (e.1, v) else e) = fun e => e.1.name == m := by
    funext e
    simp only [Function.comp_apply]
    split <;> rfl
  rw [hnames, Option.map_map]
  by_cases hm : m = n
  · subst hm
    rw [if_pos rfl]
    obtain ⟨e, he, -⟩ := Option.map_eq_some_iff.1 h
    have hname := List.find?_some he
    rw [he, Option.map_some, Function.comp_apply, if_pos hname]
  · rw [if_neg hm]
    cases he : t.entries.find? (·.1.name == m) with
    | none => rfl
    | some e =>
      have hname := List.find?_some he
      have hne : ¬(e.1.name == n) = true := by rwa [beq_iff_eq, beq_iff_eq.1 hname]
      rw [Option.map_some, Option.map_some, Function.comp_apply, if_neg hne]

lemma find?_erase_of_ne (h : m ≠ n) : (t.erase n).find? m = t.find? m := by
  rw [Table.find?, Table.erase, List.find?_filter, Table.find?]
  congr 2
  funext e
  by_cases he : e.1.name = m
  · simp [he, h]
  · simp [he]

lemma find?_erase_push :
    ((t.erase key.name).push key v).find? m = if m = key.name then some v else t.find? m := by
  rw [find?_push_of_none find?_erase]
  by_cases hm : m = key.name
  · rw [if_pos hm, if_pos hm]
  · rw [if_neg hm, if_neg hm, find?_erase_of_ne hm]

end Entries

/-! ### Changes -/

/-- What a change on the way to a deeper place does to the values it passes: a table that was missing
is made, and every other one stays of its kind. -/
inductive Passed : Option Value → Option Value → Prop where
  | made {t : Table Value} (h : t.origin ≠ .braces) : Passed none (some (.table t))
  | table {t t' : Table Value} (h : t'.origin = t.origin) :
      Passed (some (.table t)) (some (.table t'))
  | tables {ts ts' : List (Table Value)} (h : ts'.length = ts.length) :
      Passed (some (.tables ts)) (some (.tables ts'))

/-- The second value is the first one with `new` put at an address. -/
structure Put (a : Address) (new v v' : Value) : Prop where
  below : ∀ b, valueAt? (a ++ b) v' = valueAt? b new
  beside : ∀ b, ¬b <+: a → ¬a <+: b → valueAt? b v' = valueAt? b v
  way : ∀ b, b <+: a → b ≠ a → Passed (valueAt? b v) (valueAt? b v')

section Changes

variable {a b : Address} {new v v' c c' w : Value} {t t' : Table Value} {n : String}

lemma Put.at (h : Put a new v v') : valueAt? a v' = some new := by
  have hbelow := h.below []
  rwa [List.append_nil] at hbelow

/-- What is not on the way to the new value and not replaced by it stays. -/
lemma Put.stays (h : Put a new v v') (hb : valueAt? b v = some w) (hway : ¬b <+: a)
    (hkeep : ∀ c, c ≠ [] → valueAt? (a ++ c) v = some w → valueAt? c new = some w) :
    valueAt? b v' = some w := by
  by_cases hab : a <+: b
  · obtain ⟨c, rfl⟩ := hab
    rw [h.below]
    refine hkeep c ?_ hb
    rintro rfl
    rw [List.append_nil] at hway
    exact hway List.prefix_rfl
  · rw [h.beside b hway hab, hb]

/-- A change inside a part is a change of the whole. The part may be new, and empty before. -/
lemma Put.nest (h : Put a c' v v') (hc : Put b new c c')
    (hpart : ∀ d, d ≠ [] → valueAt? (a ++ d) v = valueAt? d c)
    (hpassed : Passed (valueAt? a v) (some c')) : Put (a ++ b) new v v' where
  below d := by rw [List.append_assoc, h.below, hc.below]
  beside d hd hd' := by
    by_cases had : a <+: d
    · obtain ⟨e, rfl⟩ := had
      rw [List.prefix_append_right_inj] at hd hd'
      have he : e ≠ [] := by
        rintro rfl
        exact hd List.nil_prefix
      rw [h.below, hc.beside e hd hd', hpart e he]
    · have hda : ¬d <+: a := fun hda => hd (hda.trans (List.prefix_append a b))
      exact h.beside d hda had
  way d hd hne := by
    by_cases hda : d <+: a
    · by_cases heq : d = a
      · rw [heq, h.at]
        exact hpassed
      · exact h.way d hda heq
    · have hways := List.prefix_or_prefix_of_prefix hd (List.prefix_append a b)
      obtain ⟨e, rfl⟩ := hways.resolve_left hda
      rw [List.prefix_append_right_inj] at hd
      have he : e ≠ [] := by
        rintro rfl
        rw [List.append_nil] at hda
        exact hda List.prefix_rfl
      rw [h.below, hpart e he]
      exact hc.way e hd fun heq => hne (by rw [heq])

lemma eq_nil_of_above {s : Selector} (h : b <+: [s]) (hne : b ≠ [s]) : b = [] := by
  rcases List.prefix_cons_iff.1 h with rfl | ⟨d, rfl, hd⟩
  · rfl
  · exact absurd (by rw [List.prefix_nil.1 hd]) hne

lemma put_of_find? (hfind : ∀ m, t'.find? m = if m = n then some w else t.find? m)
    (horigin : t'.origin = t.origin) : Put [.name n] w (.table t) (.table t') where
  below b := by
    rw [List.singleton_append, valueAt?, hfind, if_pos rfl, Option.bind_some]
  beside b hb hb' := by
    cases b with
    | nil => exact absurd List.nil_prefix hb
    | cons s b =>
      cases s with
      | name m =>
        have hm : m ≠ n := by
          rintro rfl
          exact hb' (List.cons_prefix_cons.2 ⟨rfl, List.nil_prefix⟩)
        rw [valueAt?, valueAt?, hfind, if_neg hm]
      | index i => rfl
  way b hb hne := by
    rw [eq_nil_of_above hb hne]
    exact .table horigin

lemma put_concat {ts : List (Table Value)} {child child' : Table Value} :
    Put [.index ts.length] (.table child') (.tables (ts ++ [child]))
      (.tables (ts ++ [child'])) where
  below b := valueAt?_last
  beside b hb hb' := by
    have hne : b ≠ [] := by
      rintro rfl
      exact hb List.nil_prefix
    have hlast : ∀ d, b ≠ .index ts.length :: d := by
      rintro d rfl
      exact hb' (List.cons_prefix_cons.2 ⟨rfl, List.nil_prefix⟩)
    rw [valueAt?_concat hne hlast, valueAt?_concat hne hlast]
  way b hb hne := by
    rw [eq_nil_of_above hb hne]
    exact .tables (by simp)

lemma put_getLast {ts : List (Table Value)} {child child' : Table Value}
    (h : ts.getLast? = some child) :
    Put [.index (ts.length - 1)] (.table child') (.tables ts)
      (.tables (ts.dropLast ++ [child'])) := by
  obtain ⟨ds, rfl⟩ := List.getLast?_eq_some_iff.1 h
  rw [List.length_append, List.length_singleton, Nat.add_sub_cancel, List.dropLast_concat]
  exact put_concat

end Changes

end MemberRelay.Proofs
