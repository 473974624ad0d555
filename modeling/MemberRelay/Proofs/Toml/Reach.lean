import Mathlib.Data.List.Induction
import MemberRelay.Proofs.Toml.Address

/-!
# What a statement changes

A path of keys leads by name from table to table, and into the last one of several. A statement puts
one value under one name at the end of its path, past no value that is closed, and changes nothing
else.
-/

namespace MemberRelay.Proofs
open Toml

/-- How many tables stand at a place that takes several. -/
def elements : Option Value → Nat
  | some (.tables ts) => ts.length
  | _ => 0

/-- An address, or the last of the tables there; `opened` has an address as often as tables were
opened there. -/
def lastOf (opened : List Address) (a : Address) : Address :=
  match opened.count a with
  | 0 => a
  | n + 1 => a ++ [.index n]

/-- A path by its names alone. -/
def pathNames (path : List Key) : Address := path.map fun key => .name key.name

/-- Where a path leads from an address. -/
def lead (opened : List Address) (base : Address) : List Key → Address
  | [] => base
  | key :: path => lead opened (lastOf opened (base ++ [.name key.name])) path

/-- The addresses are those of the tables in a value that stands at `base`. -/
def Counted (opened : List Address) (base : Address) (v : Value) : Prop :=
  ∀ a, opened.count (base ++ a) = elements (valueAt? a v)

/-- No entry that an address passes or ends at is closed. -/
def OpenAlong (a : Address) (v : Value) : Prop :=
  ∀ d n w, d ++ [.name n] <+: a → valueAt? (d ++ [.name n]) v = some w → ¬IsClosed w

/-! ### Paths -/

section Paths

variable {opened : List Address} {base a b : Address} {path path' : List Key} {n : Nat}

lemma lastOf_of_zero (h : opened.count a = 0) : lastOf opened a = a := by
  rw [lastOf, h]

lemma lastOf_of_succ (h : opened.count a = n + 1) : lastOf opened a = a ++ [.index n] := by
  rw [lastOf, h]

lemma prefix_lastOf : a <+: lastOf opened a := by
  rw [lastOf]
  split
  · exact List.prefix_rfl
  · exact List.prefix_append a _

lemma prefix_lead : base <+: lead opened base path := by
  induction path generalizing base with
  | nil => exact List.prefix_rfl
  | cons key path ih => exact ((List.prefix_append base _).trans prefix_lastOf).trans ih

lemma lead_append :
    lead opened base (path ++ path') = lead opened (lead opened base path) path' := by
  induction path generalizing base with
  | nil => rfl
  | cons key path ih => exact ih

/-- A table opened elsewhere does not lead a path astray. -/
lemma lead_cons (h : ¬a <+: lead opened base path) :
    lead (a :: opened) base path = lead opened base path := by
  induction path generalizing base with
  | nil => rfl
  | cons key path ih =>
    have hne : base ++ [.name key.name] ≠ a := by
      rintro rfl
      exact h (prefix_lastOf.trans prefix_lead)
    have hlast : lastOf (a :: opened) (base ++ [.name key.name]) =
        lastOf opened (base ++ [.name key.name]) := by
      rw [lastOf, List.count_cons_of_ne hne.symm, lastOf]
    rw [lead, hlast]
    exact ih h

lemma lead_nil : lead [] base path = base ++ pathNames path := by
  induction path generalizing base with
  | nil => exact (List.append_nil base).symm
  | cons key path ih =>
    rw [lead, lastOf_of_zero List.count_nil, ih, List.append_assoc]
    rfl

end Paths

/-! ### Parts -/

/-- The entries below an address are those of a table. The table stands there, or a path would make
it. -/
structure Part (c : Address) (v : Value) (t : Table Value) : Prop where
  below : ∀ d, d ≠ [] → valueAt? (c ++ d) v = valueAt? d (.table t)
  passed : ∀ t' : Table Value, t'.origin = t.origin → Passed (valueAt? c v) (some (.table t'))

section Parts

variable {opened : List Address} {base a b c d : Address} {v w : Value} {t t' u : Table Value}
  {n : String}

lemma valueAt?_name : valueAt? [.name n] (.table t) = t.find? n := by
  rw [valueAt?]
  cases t.find? n <;> rfl

lemma part_of_some (h : valueAt? c v = some (.table t)) : Part c v t where
  below d _ := valueAt?_append_of_some h d
  passed t' horigin := by
    rw [h]
    exact .table horigin

lemma part_of_none {origin : Origin} (h : valueAt? c v = none) (horigin : origin ≠ .braces) :
    Part c v (Table.empty origin) where
  below d hd := by rw [valueAt?_append_of_none h, valueAt?_empty rfl hd]
  passed t' horigin' := by
    rw [h]
    exact .made (by rwa [horigin'])

lemma Part.congr (h : Part c v t) (hentries : t'.entries = t.entries)
    (horigin : t'.origin = t.origin) : Part c v t' where
  below d hd := by rw [h.below d hd, valueAt?_congr hentries hd]
  passed u hu := h.passed u (hu.trans horigin)

lemma Part.trans (h : Part b v t) (h' : Part a (.table t) u) : Part (b ++ a) v u where
  below d hd := by
    rw [List.append_assoc, h.below _ (List.append_ne_nil_of_right_ne_nil a hd), h'.below d hd]
  passed t' horigin := by
    by_cases ha : a = []
    · subst ha
      rw [List.append_nil]
      cases h'.passed t' horigin with
      | table hkept => exact h.passed t' hkept
    · rw [h.below a ha]
      exact h'.passed t' horigin

lemma Passed.elements {v? v?' : Option Value} (h : Passed v? v?') :
    elements v?' = elements v? := by
  cases h with
  | made h => rfl
  | table h => rfl
  | tables h => exact h

lemma Counted.part (hcount : Counted opened base v) (h : Part c v t) :
    Counted opened (base ++ c) (.table t) := by
  intro a
  rw [List.append_assoc, hcount]
  by_cases ha : a = []
  · subst ha
    rw [List.append_nil]
    exact (h.passed t rfl).elements.symm
  · rw [h.below a ha]

lemma openAlong_nil : OpenAlong [] v := by
  intro d n w hd
  exact absurd (List.prefix_nil.1 hd) (List.append_ne_nil_of_right_ne_nil d (List.cons_ne_nil _ _))

lemma OpenAlong.name (h : OpenAlong a v)
    (hn : ∀ w, valueAt? (a ++ [.name n]) v = some w → ¬IsClosed w) :
    OpenAlong (a ++ [.name n]) v := by
  intro d m w hd hw
  rcases List.prefix_concat_iff.1 hd with heq | hd
  · rw [heq] at hw
    exact hn w hw
  · exact h d m w hd hw

lemma OpenAlong.index (h : OpenAlong a v) (i : Nat) : OpenAlong (a ++ [.index i]) v := by
  intro d m w hd hw
  rcases List.prefix_concat_iff.1 hd with heq | hd
  · exact absurd (List.append_inj_right' heq rfl) (by simp)
  · exact h d m w hd hw

lemma OpenAlong.append (hb : OpenAlong b v) (hpart : Part b v t) (ha : OpenAlong a (.table t)) :
    OpenAlong (b ++ a) v := by
  induction a using List.reverseRecOn with
  | nil => rwa [List.append_nil]
  | append_singleton a s ih =>
    have hle : OpenAlong a (.table t) := fun d n w hd => ha d n w (hd.trans (List.prefix_append a _))
    rw [← List.append_assoc]
    cases s with
    | index i => exact (ih hle).index i
    | name n =>
      refine (ih hle).name fun w hw => ?_
      rw [List.append_assoc, hpart.below _ (by simp)] at hw
      exact ha a n w List.prefix_rfl hw

end Parts

/-! ### Changes at the end of a path -/

/-- A path leads to a part, and a change of that part is all that happened. -/
structure Reaches (opened : List Address) (base : Address) (path : List Key) (t t' : Table Value)
    (c : Address) (target target' : Table Value) : Prop where
  lead : lead opened base path = base ++ c
  part : Part c (.table t) target
  put : Put c (.table target') (.table t) (.table t')
  origin : t'.origin = t.origin

section Reaches

variable {opened : List Address} {base b c : Address} {path : List Key} {key : Key}
  {t t' child child' u u' : Table Value} {ts : List (Table Value)}
  {change : Table Value → Option (Table Value)}

lemma Reaches.refl (horigin : t'.origin = t.origin) : Reaches opened base [] t t' [] t t' where
  lead := (List.append_nil base).symm
  part := part_of_some rfl
  put :=
    { below := fun _ => rfl
      beside := fun _ _ hb => absurd List.nil_prefix hb
      way := fun _ hb hne => absurd (List.prefix_nil.1 hb) hne }
  origin := horigin

/-- One key, and the path after it. -/
lemma Reaches.cons
    (hlead : Proofs.lead opened base (key :: path) = Proofs.lead opened (base ++ b) path)
    (hpart : Part b (.table t) child) (hput : Put b (.table child') (.table t) (.table t'))
    (horigin : t'.origin = t.origin) (h : Reaches opened (base ++ b) path child child' c u u') :
    Reaches opened base (key :: path) t t' (b ++ c) u u' where
  lead := by rw [hlead, h.lead, List.append_assoc]
  part := hpart.trans h.part
  put := hput.nest h.put hpart.below (hpart.passed child' h.origin)
  origin := horigin

lemma Reaches.name (hcount : Counted opened base (.table t))
    (hpart : Part [.name key.name] (.table t) child)
    (hput : Put [.name key.name] (.table child') (.table t) (.table t'))
    (horigin : t'.origin = t.origin)
    (h : Reaches opened (base ++ [.name key.name]) path child child' c u u') :
    Reaches opened base (key :: path) t t' ([.name key.name] ++ c) u u' := by
  have hzero : opened.count (base ++ [.name key.name]) = 0 := by
    rw [hcount]
    exact (hpart.passed child rfl).elements.symm
  refine Reaches.cons ?_ hpart hput horigin h
  rw [Proofs.lead, lastOf_of_zero hzero]

lemma child_part (hfind : t.find? key.name = some (.table child)) :
    Part [.name key.name] (.table t) child :=
  part_of_some (valueAt?_name.trans hfind)

lemma last_part (hfind : t.find? key.name = some (.tables ts)) (hlast : ts.getLast? = some child) :
    Part ([.name key.name] ++ [.index (ts.length - 1)]) (.table t) child := by
  apply part_of_some
  rw [valueAt?_append_of_some (valueAt?_name.trans hfind), valueAt?, ← List.getLast?_eq_getElem?,
    hlast]
  rfl

lemma last_put (hfind : t.find? key.name = some (.tables ts)) (hlast : ts.getLast? = some child) :
    Put ([.name key.name] ++ [.index (ts.length - 1)]) (.table child') (.table t)
      (.table (t.set key.name (.tables (ts.dropLast ++ [child'])))) := by
  have hset : Put [.name key.name] (.tables (ts.dropLast ++ [child'])) (.table t)
      (.table (t.set key.name (.tables (ts.dropLast ++ [child'])))) :=
    put_of_find? (fun m => find?_set_of_some hfind) rfl
  have hat : valueAt? [.name key.name] (.table t) = some (.tables ts) := valueAt?_name.trans hfind
  refine hset.nest (put_getLast hlast) (fun d _ => valueAt?_append_of_some hat d) ?_
  have hpos := List.length_pos_iff.2 (List.ne_nil_of_mem (List.mem_of_getLast? hlast))
  rw [hat]
  refine .tables ?_
  rw [List.length_append, List.length_dropLast, List.length_singleton]
  omega

lemma Reaches.last (hcount : Counted opened base (.table t))
    (hfind : t.find? key.name = some (.tables ts)) (hlast : ts.getLast? = some child)
    (h : Reaches opened (base ++ ([.name key.name] ++ [.index (ts.length - 1)])) path child child' c
      u u') :
    Reaches opened base (key :: path) t (t.set key.name (.tables (ts.dropLast ++ [child'])))
      ([.name key.name] ++ [.index (ts.length - 1)] ++ c) u u' := by
  have hsucc : opened.count (base ++ [.name key.name]) = ts.length - 1 + 1 := by
    have hpos := List.length_pos_iff.2 (List.ne_nil_of_mem (List.mem_of_getLast? hlast))
    rw [hcount, valueAt?_name, hfind, elements]
    omega
  refine Reaches.cons ?_ (last_part hfind hlast) (last_put hfind hlast) rfl h
  rw [Proofs.lead, lastOf_of_succ hsucc, List.append_assoc]

lemma openAlong_name (h : ∀ v, t.find? key.name = some v → ¬IsClosed v) :
    OpenAlong [.name key.name] (.table t) := by
  refine openAlong_nil.name fun w hw => h w ?_
  rwa [List.nil_append, valueAt?_name] at hw

lemma openAlong_of_some {v : Value} (hfind : t.find? key.name = some v) (hv : ¬IsClosed v) :
    OpenAlong [.name key.name] (.table t) := by
  refine openAlong_name fun w hw => ?_
  rw [hfind] at hw
  cases hw
  exact hv

lemma not_isClosed_of_isOpen {dotted : Bool} (h : t.isOpen dotted = true) :
    ¬IsClosed (.table t) := by
  intro hclosed
  rw [Table.isOpen, show t.origin = .braces from hclosed] at h
  cases h

/-- A change at the end of a path. The tables that the path makes or passes are open. -/
lemma alter_reaches {dotted : Bool} (horigin : ∀ u u', change u = some u' → u'.origin = u.origin)
    (hcount : Counted opened base (.table t))
    (h : Table.alter dotted change path t = some t') :
    ∃ c u u', Reaches opened base path t t' c u u' ∧ change u = some u' ∧
      OpenAlong c (.table t) := by
  -- what is counted below each table on the way tells the index that the path takes there
  induction path generalizing base t t' with
  | nil => exact ⟨[], t, t', .refl (horigin t t' h), h, openAlong_nil⟩
  | cons key path ih =>
    rw [Table.alter] at h
    split at h
    · next hfind =>
      obtain ⟨child', hchild, rfl⟩ := Option.map_eq_some_iff.1 h
      have hpart : Part [.name key.name] (.table t)
          (Table.empty (if dotted then .dotted else .passing)) :=
        part_of_none (valueAt?_name.trans hfind) (by cases dotted <;> decide)
      have hput := put_of_find? (fun m => find?_push_of_none (v := .table child') hfind) rfl
      have hopen : OpenAlong [.name key.name] (.table t) := openAlong_name (by simp [hfind])
      obtain ⟨c, u, u', hreaches, hu, hc⟩ := ih (hcount.part hpart) hchild
      exact ⟨_, u, u', hreaches.name hcount hpart hput rfl, hu, hopen.append hpart hc⟩
    · next child hfind =>
      split at h
      · next hchildOpen =>
        obtain ⟨child', hchild, rfl⟩ := Option.map_eq_some_iff.1 h
        have hpart := child_part hfind
        have hput := put_of_find? (fun m => find?_set_of_some (v := .table child') hfind) rfl
        have hopen := openAlong_of_some hfind (not_isClosed_of_isOpen hchildOpen)
        obtain ⟨c, u, u', hreaches, hu, hc⟩ := ih (hcount.part hpart) hchild
        exact ⟨_, u, u', hreaches.name hcount hpart hput rfl, hu, hopen.append hpart hc⟩
      · cases h
    · next ts hfind =>
      split at h
      · next child hlast =>
        obtain ⟨child', hchild, rfl⟩ := Option.map_eq_some_iff.1 h
        have hpart := last_part hfind hlast
        have hopen : OpenAlong [.name key.name] (.table t) := openAlong_of_some hfind id
        obtain ⟨c, u, u', hreaches, hu, hc⟩ := ih (hcount.part hpart) hchild
        exact ⟨_, u, u', hreaches.last hcount hfind hlast, hu, (hopen.index _).append hpart hc⟩
      · cases h
    · cases h

lemma within_reaches (horigin : ∀ u u', change u = some u' → u'.origin = u.origin)
    (hcount : Counted opened base (.table t)) (h : Table.within change path t = some t') :
    ∃ c u u', Reaches opened base path t t' c u u' ∧ change u = some u' := by
  induction path generalizing base t t' with
  | nil => exact ⟨[], t, t', .refl (horigin t t' h), h⟩
  | cons key path ih =>
    rw [Table.within] at h
    split at h
    · next child hfind =>
      obtain ⟨child', hchild, rfl⟩ := Option.map_eq_some_iff.1 h
      have hpart := child_part hfind
      have hput := put_of_find? (fun m => find?_set_of_some (v := .table child') hfind) rfl
      obtain ⟨c, u, u', hreaches, hu⟩ := ih (hcount.part hpart) hchild
      exact ⟨_, u, u', hreaches.name hcount hpart hput rfl, hu⟩
    · next ts hfind =>
      obtain ⟨child, hlast, hmap⟩ := Option.bind_eq_some_iff.1 h
      obtain ⟨child', hchild, rfl⟩ := Option.map_eq_some_iff.1 hmap
      obtain ⟨c, u, u', hreaches, hu⟩ := ih (hcount.part (last_part hfind hlast)) hchild
      exact ⟨_, u, u', hreaches.last hcount hfind hlast, hu⟩
    · cases h

end Reaches

/-! ### Entries of statements -/

/-- A path leads past what is open to a table, and a value under one name of it is all that is
new. -/
structure Enters (opened : List Address) (base : Address) (path : List Key) (key : Key)
    (t t' : Table Value) (a : Address) (new : Value) : Prop where
  lead : lead opened base path = base ++ a
  free : OpenAlong a (.table t)
  put : Put (a ++ [.name key.name]) new (.table t) (.table t')
  origin : t'.origin = t.origin

/-- What the header of a table finds under its name, and what it leaves there. -/
inductive Opens (span : Span) : Option Value → Value → Prop where
  | new : Opens span none (.table ⟨.header, some span, []⟩)
  | passed {child : Table Value} (h : child.origin = .passing) :
      Opens span (some (.table child)) (.table ⟨.header, some span, child.entries⟩)

/-- What a header in double brackets finds under its name, and what it leaves there. -/
inductive Adds (span : Span) : Option Value → Value → Prop where
  | first : Adds span none (.tables [⟨.header, some span, []⟩])
  | next {ts : List (Table Value)} :
      Adds span (some (.tables ts)) (.tables (ts ++ [⟨.header, some span, []⟩]))

section Enters

variable {opened : List Address} {base c : Address} {path current : List Key} {key : Key}
  {span : Span} {t t' u u' : Table Value} {v new : Value}
  {change : Table Value → Option (Table Value)} {R : Option Value → Value → Prop}

/-- The change puts a value under a name of a table and is nothing else. -/
def EntersOne (key : Key) (R : Option Value → Value → Prop)
    (change : Table Value → Option (Table Value)) : Prop :=
  ∀ u u', change u = some u' → u'.origin = u.origin ∧
    ∃ new, Put [.name key.name] new (.table u) (.table u') ∧ R (u.find? key.name) new

lemma Reaches.enters (h : Reaches opened base path t t' c u u') (hfree : OpenAlong c (.table t))
    (horigin : u'.origin = u.origin) (hput : Put [.name key.name] new (.table u) (.table u')) :
    Enters opened base path key t t' c new where
  lead := h.lead
  free := hfree
  put := h.put.nest hput h.part.below (h.part.passed u' horigin)
  origin := h.origin

lemma alter_enters {dotted : Bool} (hchange : EntersOne key R change)
    (hcount : Counted opened base (.table t)) (h : Table.alter dotted change path t = some t') :
    ∃ a new, Enters opened base path key t t' a new ∧
      R (valueAt? (a ++ [.name key.name]) (.table t)) new := by
  obtain ⟨c, u, u', hreaches, hu, hfree⟩ :=
    alter_reaches (fun u u' hu => (hchange u u' hu).1) hcount h
  obtain ⟨horigin, new, hput, hR⟩ := hchange u u' hu
  refine ⟨c, new, hreaches.enters hfree horigin hput, ?_⟩
  rwa [hreaches.part.below _ (List.cons_ne_nil _ _), valueAt?_name]

lemma assign_enters (hcount : Counted opened base (.table t))
    (h : t.assign path key v = some t') :
    ∃ a, Enters opened base path key t t' a v ∧
      valueAt? (a ++ [.name key.name]) (.table t) = none := by
  have hnew : ∃ a new, Enters opened base path key t t' a new ∧
      (valueAt? (a ++ [.name key.name]) (.table t) = none ∧ new = v) := by
    refine alter_enters (R := fun old new => old = none ∧ new = v) ?_ hcount h
    intro u u' hu
    dsimp only at hu
    split at hu
    · cases hu
    · split at hu
      · cases hu
      · next hnone =>
        cases hu
        have hfind := Option.not_isSome_iff_eq_none.1 hnone
        exact ⟨rfl, v, put_of_find? (fun m => find?_push_of_none hfind) rfl, hfind, rfl⟩
  obtain ⟨a, new, henters, hold, rfl⟩ := hnew
  exact ⟨a, henters, hold⟩

lemma openTable_enters (hcount : Counted opened base (.table t))
    (h : t.openTable path key span = some t') :
    ∃ a new, Enters opened base path key t t' a new ∧
      Opens span (valueAt? (a ++ [.name key.name]) (.table t)) new := by
  refine alter_enters ?_ hcount h
  intro u u' hu
  dsimp only at hu
  split at hu
  · next hfind =>
    cases hu
    rw [hfind]
    exact ⟨rfl, _, put_of_find? (fun m => find?_push_of_none hfind) rfl, .new⟩
  · next child hfind =>
    split at hu
    · next hpassing =>
      cases hu
      rw [hfind]
      exact ⟨rfl, _, put_of_find? (fun m => find?_erase_push) rfl, .passed hpassing⟩
    · cases hu
  · cases hu

lemma openElement_enters (hcount : Counted opened base (.table t))
    (h : t.openElement path key span = some t') :
    ∃ a new, Enters opened base path key t t' a new ∧
      Adds span (valueAt? (a ++ [.name key.name]) (.table t)) new := by
  refine alter_enters ?_ hcount h
  intro u u' hu
  dsimp only at hu
  split at hu
  · next hfind =>
    cases hu
    rw [hfind]
    exact ⟨rfl, _, put_of_find? (fun m => find?_push_of_none hfind) rfl, .first⟩
  · next ts hfind =>
    cases hu
    rw [hfind]
    exact ⟨rfl, _, put_of_find? (fun m => find?_set_of_some hfind) rfl, .next⟩
  · cases hu

lemma extend_entries : (t.extend v).entries = t.entries := by
  rw [Table.extend]
  split <;> rfl

lemma extend_origin : (t.extend v).origin = t.origin := by
  rw [Table.extend]
  split <;> rfl

lemma alter_origin {dotted : Bool} (horigin : ∀ u u', change u = some u' → u'.origin = u.origin)
    (h : Table.alter dotted change path t = some t') : t'.origin = t.origin := by
  cases path with
  | nil => exact horigin t t' h
  | cons key path =>
    rw [Table.alter] at h
    split at h
    · obtain ⟨child, -, rfl⟩ := Option.map_eq_some_iff.1 h
      rfl
    · split at h
      · obtain ⟨child, -, rfl⟩ := Option.map_eq_some_iff.1 h
        rfl
      · cases h
    · split at h
      · obtain ⟨child, -, rfl⟩ := Option.map_eq_some_iff.1 h
        rfl
      · cases h
    · cases h

lemma assign_origin (h : t.assign path key v = some t') : t'.origin = t.origin := by
  refine alter_origin ?_ h
  intro u u' hu
  split at hu
  · cases hu
  · split at hu
    · cases hu
    · cases hu
      rfl

/-- An assignment below a header enters its value at the end of both paths. -/
lemma within_enters (hcount : Counted opened [] (.table t))
    (hfree : OpenAlong (Proofs.lead opened [] current) (.table t))
    (h : Table.within (fun u => (u.extend v).assign path key v) current t = some t') :
    ∃ a, Enters opened [] (current ++ path) key t t' a v ∧
      valueAt? (a ++ [.name key.name]) (.table t) = none := by
  have horigin : ∀ u u' : Table Value, (u.extend v).assign path key v = some u' →
      u'.origin = u.origin := fun u u' hu => (assign_origin hu).trans extend_origin
  obtain ⟨b, u, u', hreaches, hu⟩ := within_reaches horigin hcount h
  have hpart := hreaches.part.congr (extend_entries (v := v)) extend_origin
  have hcurrent := hreaches.lead
  rw [List.nil_append] at hcurrent
  obtain ⟨a, henters, hnone⟩ := assign_enters (hcount.part hpart) hu
  refine ⟨b ++ a, ⟨?_, ?_, ?_, hreaches.origin⟩, ?_⟩
  · rw [lead_append, hcurrent, List.nil_append]
    exact henters.lead
  · rw [hcurrent] at hfree
    exact hfree.append hpart henters.free
  · rw [List.append_assoc]
    exact hreaches.put.nest henters.put hpart.below (hpart.passed u' henters.origin)
  · rw [List.append_assoc, hpart.below _ (by simp), hnone]

end Enters

/-! ### Counting -/

section Counting

variable {opened : List Address} {a p : Address} {new v v' : Value}

lemma Put.elements (hput : Put p new v v')
    (hbelow : ∀ c, c ≠ [] → elements (valueAt? c new) = elements (valueAt? (p ++ c) v))
    (ha : a ≠ p) : elements (valueAt? a v') = elements (valueAt? a v) := by
  by_cases hpa : p <+: a
  · obtain ⟨c, rfl⟩ := hpa
    have hc : c ≠ [] := by
      rintro rfl
      exact ha (List.append_nil p)
    rw [hput.below, hbelow c hc]
  · by_cases hap : a <+: p
    · exact (hput.way a hap ha).elements
    · rw [hput.beside a hap hpa]

lemma Counted.put (hcount : Counted opened [] v) (hput : Put p new v v')
    (hbelow : ∀ c, Proofs.elements (valueAt? c new) = Proofs.elements (valueAt? (p ++ c) v)) :
    Counted opened [] v' := by
  intro a
  rw [hcount]
  by_cases ha : a = p
  · have hat := hbelow []
    rw [List.append_nil] at hat
    rw [ha, hput.at, ← hat]
    rfl
  · exact (hput.elements (fun c _ => hbelow c) ha).symm

lemma Counted.put_cons (hcount : Counted opened [] v) (hput : Put p new v v')
    (hat : Proofs.elements (some new) = Proofs.elements (valueAt? p v) + 1)
    (hbelow : ∀ c, c ≠ [] →
      Proofs.elements (valueAt? c new) = Proofs.elements (valueAt? (p ++ c) v)) :
    Counted (p :: opened) [] v' := by
  intro a
  rw [List.nil_append]
  by_cases ha : a = p
  · have hold : opened.count p = _ := hcount p
    rw [ha, hput.at, hat, List.count_cons_self, hold]
  · have hold : opened.count a = _ := hcount a
    rw [List.count_cons_of_ne (Ne.symm ha), hold, hput.elements hbelow ha]

end Counting

end MemberRelay.Proofs
