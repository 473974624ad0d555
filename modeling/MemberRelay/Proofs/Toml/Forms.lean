import Mathlib.Tactic.Common
import MemberRelay.Toml.Document

/-!
# What values and statements are read from

The readers of values and of statements taken apart once, case by case. What is proved of a value or
of a statement is proved of these cases.
-/

namespace MemberRelay.Proofs
open Toml

/-! ### Values -/

/-- What a value may be read from: one without parts, the items of an array, or the assignments of a
table in braces, with what is left. -/
inductive ValueForm (depth : Nat) : List Char → Value → List Char → Prop where
  | scalar {cs rest : List Char} {s : Scalar} (h : scalar? cs = some (s, rest)) :
      ValueForm depth cs (.scalar s ⟨cs, rest⟩) rest
  | array {inner rest : List Char} {items : List Value}
      (h : itemsFrom (value? depth) [] inner.length inner = some (items, rest)) :
      ValueForm depth ('[' :: inner) (.array items ⟨'[' :: inner, rest⟩) rest
  | braces {inner rest : List Char} {as : List Assignment} {t : Table Value}
      (h : braced? (value? depth) inner = some (as, rest)) (ht : ofAssignments? as = some t) :
      ValueForm depth ('\x7b' :: inner) (.table { t with span := some ⟨'\x7b' :: inner, rest⟩ }) rest

lemma value?_form {depth : Nat} {cs rest : List Char} {v : Value}
    (h : value? (depth + 1) cs = some (v, rest)) : ValueForm depth cs v rest := by
  unfold value? at h
  split at h
  · obtain ⟨⟨items, stop⟩, hitems, h⟩ := Option.bind_eq_some_iff.1 h
    cases h
    exact .array hitems
  · obtain ⟨⟨as, stop⟩, has, h⟩ := Option.bind_eq_some_iff.1 h
    obtain ⟨t, ht, h⟩ := Option.bind_eq_some_iff.1 h
    cases h
    exact .braces has ht
  · obtain ⟨⟨s, stop⟩, hs, heq⟩ := Option.map_eq_some_iff.1 h
    cases heq
    exact .scalar hs

/-! ### Statements -/

/-- What a statement may be read from: a header of one kind or the other, or an assignment, each with
the end of its line. -/
inductive StatementForm : List Char → Statement → List Char → Prop where
  | assign {cs stop rest : List Char} {a : Assignment}
      (h : assignment? (value? (depthLimit - 1)) cs = some (a, stop))
      (hend : endOfLine? stop = some rest) : StatementForm cs (.assign a) rest
  | openTable {inner stop rest : List Char} {path : List Key} {key : Key}
      (h : key? inner = some ((path, key), ']' :: stop)) (hend : endOfLine? stop = some rest) :
      StatementForm ('[' :: inner) (.openTable path key ⟨'[' :: inner, stop⟩) rest
  | openElement {inner stop rest : List Char} {path : List Key} {key : Key}
      (h : key? inner = some ((path, key), ']' :: ']' :: stop)) (hend : endOfLine? stop = some rest) :
      StatementForm ('[' :: '[' :: inner) (.openElement path key ⟨'[' :: '[' :: inner, stop⟩) rest

section Statements

variable {cs stop rest : List Char} {s : Statement}

lemma header?_form (h : header? cs = some (s, stop)) (hend : endOfLine? stop = some rest) :
    StatementForm cs s rest := by
  unfold header? at h
  split at h
  · obtain ⟨⟨⟨path, key⟩, brackets⟩, hkey, h⟩ := Option.bind_eq_some_iff.1 h
    obtain ⟨stop', hbrackets, h⟩ := Option.bind_eq_some_iff.1 h
    cases h
    rw [Reader.literal?_eq_some_iff.1 hbrackets] at hkey
    exact .openElement hkey hend
  · obtain ⟨⟨⟨path, key⟩, brackets⟩, hkey, h⟩ := Option.bind_eq_some_iff.1 h
    obtain ⟨stop', hbracket, h⟩ := Option.bind_eq_some_iff.1 h
    cases h
    rw [Reader.literal?_eq_some_iff.1 hbracket] at hkey
    exact .openTable hkey hend
  · cases h

lemma statement?_form (h : statement? cs = some (s, rest)) : StatementForm cs s rest := by
  unfold statement? at h
  dsimp only at h
  split at h
  · obtain ⟨⟨s', stop⟩, hs, h⟩ := Option.bind_eq_some_iff.1 h
    obtain ⟨next, hend, h⟩ := Option.bind_eq_some_iff.1 h
    cases h
    exact header?_form hs hend
  · obtain ⟨⟨s', stop⟩, hs, h⟩ := Option.bind_eq_some_iff.1 h
    obtain ⟨⟨a, stop'⟩, ha, heq⟩ := Option.map_eq_some_iff.1 hs
    obtain ⟨next, hend, h⟩ := Option.bind_eq_some_iff.1 h
    cases heq
    cases h
    exact .assign ha hend

end Statements

/-! ### Keys -/

/-- What the parts of a key may be read from, with points between them. -/
inductive KeysForm : Nat → List Char → List Key → List Char → Prop where
  | last {limit : Nat} {cs stop : List Char} {key : Key}
      (hkey : keyPart? (skipBlanks cs) = some (key, stop))
      (h : ∀ next, skipBlanks stop ≠ '.' :: next) :
      KeysForm (limit + 1) cs [key] (skipBlanks stop)
  | next {limit : Nat} {cs stop next rest : List Char} {key : Key} {keys : List Key}
      (hkey : keyPart? (skipBlanks cs) = some (key, stop)) (h : skipBlanks stop = '.' :: next)
      (hnext : KeysForm limit next keys rest) : KeysForm (limit + 1) cs (key :: keys) rest

lemma keyFrom?_iff {limit : Nat} {cs rest : List Char} {keys : List Key} :
    keyFrom? limit cs = some (keys, rest) ↔ KeysForm limit cs keys rest := by
  constructor
  · intro h
    induction limit generalizing cs keys with
    | zero => cases h
    | succ limit ih =>
      obtain ⟨⟨key, stop⟩, hkey, h⟩ := Option.bind_eq_some_iff.1 h
      dsimp only at h
      split at h
      · next hpoint =>
        obtain ⟨⟨keys', rest'⟩, hkeys, h⟩ := Option.bind_eq_some_iff.1 h
        cases h
        exact .next hkey hpoint (ih hkeys)
      · next hlast =>
        obtain ⟨rfl, rfl⟩ := Prod.mk.inj (Option.some.inj h)
        exact .last hkey hlast
  · intro h
    induction h with
    | last hkey h =>
      rw [keyFrom?, hkey]
      simp
    | next hkey h _ ih =>
      rw [keyFrom?, hkey]
      simp [h, ih]

/-! ### Lists of values, assignments and statements -/

/-- What the items of an array may be read from, after its bracket. -/
inductive ItemsForm (item? : Reader Value) : List Char → List Value → List Char → Prop where
  | close {cs rest : List Char} (h : skipFiller false cs = ']' :: rest) :
      ItemsForm item? cs [] rest
  | last {cs stop rest : List Char} {v : Value} (hopen : ∀ rest, skipFiller false cs ≠ ']' :: rest)
      (hv : item? (skipFiller false cs) = some (v, stop)) (h : skipFiller false stop = ']' :: rest) :
      ItemsForm item? cs [v] rest
  | next {cs stop after rest : List Char} {v : Value} {vs : List Value}
      (hopen : ∀ rest, skipFiller false cs ≠ ']' :: rest)
      (hv : item? (skipFiller false cs) = some (v, stop)) (h : skipFiller false stop = ',' :: after)
      (hnext : ItemsForm item? after vs rest) : ItemsForm item? cs (v :: vs) rest

/-- What the assignments between braces may be read from, after the opening one. -/
inductive PairsForm (value? : Reader Value) : List Char → List Assignment → List Char → Prop where
  | last {cs stop rest : List Char} {a : Assignment} (ha : assignment? value? cs = some (a, stop))
      (h : skipBlanks stop = '\x7d' :: rest) : PairsForm value? cs [a] rest
  | next {cs stop after rest : List Char} {a : Assignment} {as : List Assignment}
      (ha : assignment? value? cs = some (a, stop)) (h : skipBlanks stop = ',' :: after)
      (hnext : PairsForm value? after as rest) : PairsForm value? cs (a :: as) rest

/-- What the statements of a text may be read from, line by line. -/
inductive LinesForm : List Char → List Statement → Prop where
  | done {cs : List Char} (h : skipBlanks cs = []) : LinesForm cs []
  | note {cs note rest : List Char} {ss : List Statement} (h : skipBlanks cs = '#' :: note)
      (hend : endOfLine? ('#' :: note) = some rest) (hnext : LinesForm rest ss) : LinesForm cs ss
  | empty {cs rest : List Char} {ss : List Statement} (h : newline? (skipBlanks cs) = some rest)
      (hnext : LinesForm rest ss) : LinesForm cs ss
  | statement {cs line rest : List Char} {c : Char} {s : Statement} {ss : List Statement}
      (h : skipBlanks cs = c :: line) (hnote : c ≠ '#') (hline : newline? (c :: line) = none)
      (hs : statement? (c :: line) = some (s, rest)) (hnext : LinesForm rest ss) :
      LinesForm cs (s :: ss)

section Lists

variable {read? : Reader Value} {cs rest : List Char} {fuel : Nat}

lemma itemsFrom_form {done items : List Value}
    (h : itemsFrom read? done fuel cs = some (items, rest)) :
    ∃ vs, items = done.reverse ++ vs ∧ ItemsForm read? cs vs rest := by
  induction fuel generalizing done cs with
  | zero => cases h
  | succ fuel ih =>
    rw [itemsFrom] at h
    split at h
    · next hclose =>
      cases h
      exact ⟨[], (List.append_nil _).symm, .close hclose⟩
    · next hopen =>
      obtain ⟨⟨item, stop⟩, hitem, h⟩ := Option.bind_eq_some_iff.1 h
      dsimp only at h
      split at h
      · next hcomma =>
        obtain ⟨vs, rfl, hform⟩ := ih h
        exact ⟨item :: vs, by simp, .next hopen hitem hcomma hform⟩
      · next hclose =>
        cases h
        exact ⟨[item], List.reverse_cons, .last hopen hitem hclose⟩
      · cases h

lemma assignment?_form {a : Assignment} (h : assignment? read? cs = some (a, rest)) :
    ∃ after, key? cs = some ((a.path, a.key), '=' :: after) ∧
      read? (skipBlanks after) = some (a.value, rest) := by
  obtain ⟨⟨⟨path, key⟩, stop⟩, hkey, h⟩ := Option.bind_eq_some_iff.1 h
  obtain ⟨after, hmark, h⟩ := Option.bind_eq_some_iff.1 h
  obtain ⟨⟨v, stop'⟩, hv, h⟩ := Option.bind_eq_some_iff.1 h
  cases h
  rw [Reader.literal?_eq_some_iff.1 hmark] at hkey
  exact ⟨after, hkey, hv⟩

lemma assignmentsFrom_form {done assignments : List Assignment}
    (h : assignmentsFrom read? done fuel cs = some (assignments, rest)) :
    ∃ as, assignments = done.reverse ++ as ∧ PairsForm read? cs as rest := by
  induction fuel generalizing done cs with
  | zero => cases h
  | succ fuel ih =>
    obtain ⟨⟨a, stop⟩, ha, h⟩ := Option.bind_eq_some_iff.1 h
    dsimp only at h
    split at h
    · next hcomma =>
      obtain ⟨as, rfl, hform⟩ := ih h
      exact ⟨a :: as, by simp, .next ha hcomma hform⟩
    · next hclose =>
      cases h
      exact ⟨[a], List.reverse_cons, .last ha hclose⟩
    · cases h

lemma braced?_form {as : List Assignment} (h : braced? read? cs = some (as, rest)) :
    (skipBlanks cs = '\x7d' :: rest ∧ as = []) ∨
      (∀ rest, skipBlanks cs ≠ '\x7d' :: rest) ∧ PairsForm read? cs as rest := by
  rw [braced?] at h
  split at h
  · next hclose =>
    cases h
    exact .inl ⟨hclose, rfl⟩
  · next hopen =>
    obtain ⟨as, rfl, hform⟩ := assignmentsFrom_form h
    exact .inr ⟨hopen, hform⟩

lemma statementsFrom_form {done ss : List Statement} (h : statementsFrom done fuel cs = some ss) :
    ∃ new, ss = done.reverse ++ new ∧ LinesForm cs new := by
  induction fuel generalizing done cs with
  | zero => cases h
  | succ fuel ih =>
    rw [statementsFrom] at h
    split at h
    · next hdone =>
      cases h
      exact ⟨[], (List.append_nil _).symm, .done hdone⟩
    · next hnote =>
      obtain ⟨next, hend, h⟩ := Option.bind_eq_some_iff.1 h
      obtain ⟨new, rfl, hform⟩ := ih h
      exact ⟨new, rfl, .note hnote hend hform⟩
    · next hne hnote =>
      split at h
      · next hend =>
        obtain ⟨new, rfl, hform⟩ := ih h
        exact ⟨new, rfl, .empty hend hform⟩
      · next hline =>
        obtain ⟨⟨s, next⟩, hs, h⟩ := Option.bind_eq_some_iff.1 h
        obtain ⟨new, rfl, hform⟩ := ih h
        refine ⟨s :: new, by simp, ?_⟩
        cases hstart : skipBlanks cs with
        | nil => exact absurd hstart hne
        | cons c line =>
          rw [hstart] at hline hs
          refine .statement hstart ?_ hline hs hform
          rintro rfl
          exact hnote line hstart

variable {vs : List Value} {as : List Assignment} {ss : List Statement} {a : Assignment} {v : Value}

lemma ItemsForm.reads (h : ItemsForm read? cs vs rest) (hv : v ∈ vs) :
    ∃ text stop, read? text = some (v, stop) := by
  induction h with
  | close => exact absurd hv List.not_mem_nil
  | last _ hread =>
    rw [List.mem_singleton.1 hv]
    exact ⟨_, _, hread⟩
  | next _ hread _ _ ih =>
    rcases List.mem_cons.1 hv with rfl | hv
    · exact ⟨_, _, hread⟩
    · exact ih hv

lemma PairsForm.reads (h : PairsForm read? cs as rest) (ha : a ∈ as) :
    ∃ text stop, read? text = some (a.value, stop) := by
  have hvalue : ∀ {cs stop : List Char} {a : Assignment}, assignment? read? cs = some (a, stop) →
      ∃ text stop, read? text = some (a.value, stop) := by
    intro cs stop a h
    obtain ⟨after, -, hread⟩ := assignment?_form h
    exact ⟨_, _, hread⟩
  induction h with
  | last hread =>
    rw [List.mem_singleton.1 ha]
    exact hvalue hread
  | next hread _ _ ih =>
    rcases List.mem_cons.1 ha with rfl | ha
    · exact hvalue hread
    · exact ih ha

lemma LinesForm.reads (h : LinesForm cs ss) (ha : .assign a ∈ ss) :
    ∃ text stop, value? (depthLimit - 1) text = some (a.value, stop) := by
  induction h with
  | done => exact absurd ha List.not_mem_nil
  | note _ _ _ ih => exact ih ha
  | empty _ _ ih => exact ih ha
  | statement _ _ _ hs _ ih =>
    rcases List.mem_cons.1 ha with rfl | ha
    · cases statement?_form hs with
      | assign hassign =>
        obtain ⟨after, -, hread⟩ := assignment?_form hassign
        exact ⟨_, _, hread⟩
    · exact ih ha

end Lists

end MemberRelay.Proofs
