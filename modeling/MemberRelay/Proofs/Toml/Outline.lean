import Mathlib.Data.List.DropRight
import MemberRelay.Proofs.Toml.Contents

/-!
# The statements of a text

The address of each assignment of a text and of each table that a header opens, read off the text
alone. The reader of documents finds the same statements.
-/

namespace MemberRelay.Proofs
open Toml

/-- What the headers of a text have opened so far: an address for each table in double brackets, and
the address of the last table. -/
structure Outline where
  opened : List Address
  current : Address

namespace Outline

def start : Outline := ⟨[], []⟩

/-- Where an assignment goes. -/
def entry (o : Outline) (path : List Key) (key : Key) : Address :=
  lead o.opened o.current path ++ [.name key.name]

/-- What a header names. -/
def header (o : Outline) (path : List Key) (key : Key) : Address :=
  lead o.opened [] path ++ [.name key.name]

def openTable (o : Outline) (path : List Key) (key : Key) : Outline :=
  { o with current := o.header path key }

/-- Each header in double brackets opens the next table at its address. -/
def openElement (o : Outline) (path : List Key) (key : Key) : Outline where
  opened := o.header path key :: o.opened
  current := o.header path key ++ [.index (o.opened.count (o.header path key))]

end Outline

/-- The entries of a text, and the addresses of the tables that its headers open. -/
inductive Lists : Outline → List Char → List Entry → List Address → Prop where
  | done {o : Outline} {cs : List Char} (h : skipBlanks cs = []) : Lists o cs [] []
  | skip {o : Outline} {cs next : List Char} {es : List Entry} {hs : List Address}
      (h : skipBlanks cs ≠ []) (hend : endOfLine? cs = some next) (hnext : Lists o next es hs) :
      Lists o cs es hs
  | table {o : Outline} {cs inner stop next : List Char} {path : List Key} {key : Key}
      {es : List Entry} {hs : List Address} (h : skipBlanks cs = '[' :: inner)
      (hkey : key? inner = some ((path, key), ']' :: stop)) (hend : endOfLine? stop = some next)
      (hnext : Lists (o.openTable path key) next es hs) :
      Lists o cs es ((o.openTable path key).current :: hs)
  | element {o : Outline} {cs inner stop next : List Char} {path : List Key} {key : Key}
      {es : List Entry} {hs : List Address} (h : skipBlanks cs = '[' :: '[' :: inner)
      (hkey : key? inner = some ((path, key), ']' :: ']' :: stop))
      (hend : endOfLine? stop = some next) (hnext : Lists (o.openElement path key) next es hs) :
      Lists o cs es ((o.openElement path key).current :: hs)
  | assign {o : Outline} {cs after stop next : List Char} {path : List Key} {key : Key}
      {inner es : List Entry} {hs : List Address}
      (hkey : key? (skipBlanks cs) = some ((path, key), '=' :: after))
      (hvalue : Writes .value (skipBlanks after) inner stop) (hend : endOfLine? stop = some next)
      (hnext : Lists o next es hs) :
      Lists o cs (assigned (o.entry path key) (skipBlanks after) inner ++ es) hs

/-! ### A text has one list -/

section Unique

variable {o : Outline} {cs inner next : List Char} {es es' : List Entry} {hs hs' : List Address}
  {r : (List Key × Key) × List Char} {c : Char}

lemma skipBlanks_skipBlanks : skipBlanks (skipBlanks cs) = skipBlanks cs :=
  List.dropWhile_idempotent isBlank cs

lemma skipBlanks_eq_of_key? (h : key? (skipBlanks cs) = some r) :
    ∃ c rest, skipBlanks cs = c :: rest ∧ startsKey c = true := by
  obtain ⟨c, rest, hstart, hc⟩ := key?_starts h
  rw [skipBlanks_skipBlanks] at hstart
  exact ⟨c, rest, hstart, hc⟩

lemma not_key?_of_bracket : key? ('[' :: cs) ≠ some r := by
  intro h
  obtain ⟨c, rest, hstart, hc⟩ := key?_starts h
  cases hstart
  cases hc

lemma startsKey_of_endOfLine? (h : endOfLine? cs = some next) (hstart : skipBlanks cs = c :: inner) :
    startsKey c = false ∧ c ≠ '[' := by
  rw [endOfLine?, hstart] at h
  by_cases hnote : c = '#'
  · subst hnote
    decide
  · have hskip : skipComment (c :: inner) = c :: inner := by
      unfold skipComment
      split
      · next heq =>
        cases heq
        exact absurd rfl hnote
      · rfl
    rw [hskip] at h
    dsimp only at h
    unfold newline? at h
    split at h
    · next heq =>
      cases heq
      decide
    · next heq =>
      cases heq
      decide
    · cases h

/-- What a text lists is determined. -/
theorem Lists.unique (h : Lists o cs es hs) (h' : Lists o cs es' hs') : es = es' ∧ hs = hs' := by
  induction h generalizing es' hs' with
  | done h =>
    cases h' with
    | done => exact ⟨rfl, rfl⟩
    | skip h' => exact absurd h h'
    | table h' => rw [h] at h'; cases h'
    | element h' => rw [h] at h'; cases h'
    | assign hkey' =>
      obtain ⟨c, rest, hstart, -⟩ := skipBlanks_eq_of_key? hkey'
      rw [h] at hstart
      cases hstart
  | skip h hend _ ih =>
    cases h' with
    | done h' => exact absurd h' h
    | skip h' hend' hnext' =>
      rw [hend] at hend'
      cases hend'
      exact ih hnext'
    | table h' => exact absurd rfl (startsKey_of_endOfLine? hend h').2
    | element h' => exact absurd rfl (startsKey_of_endOfLine? hend h').2
    | assign hkey' =>
      obtain ⟨c, rest, hstart, hc⟩ := skipBlanks_eq_of_key? hkey'
      rw [(startsKey_of_endOfLine? hend hstart).1] at hc
      cases hc
  | table h hkey hend _ ih =>
    cases h' with
    | done h' => rw [h] at h'; cases h'
    | skip h' hend' => exact absurd rfl (startsKey_of_endOfLine? hend' h).2
    | table h' hkey' hend' hnext' =>
      rw [h] at h'
      cases h'
      rw [hkey] at hkey'
      cases hkey'
      rw [hend] at hend'
      cases hend'
      obtain ⟨rfl, rfl⟩ := ih hnext'
      exact ⟨rfl, rfl⟩
    | element h' =>
      rw [h] at h'
      cases h'
      exact absurd hkey not_key?_of_bracket
    | assign hkey' =>
      rw [h] at hkey'
      exact absurd hkey' not_key?_of_bracket
  | element h hkey hend _ ih =>
    cases h' with
    | done h' => rw [h] at h'; cases h'
    | skip h' hend' => exact absurd rfl (startsKey_of_endOfLine? hend' h).2
    | table h' hkey' =>
      rw [h] at h'
      cases h'
      exact absurd hkey' not_key?_of_bracket
    | element h' hkey' hend' hnext' =>
      rw [h] at h'
      cases h'
      rw [hkey] at hkey'
      cases hkey'
      rw [hend] at hend'
      cases hend'
      obtain ⟨rfl, rfl⟩ := ih hnext'
      exact ⟨rfl, rfl⟩
    | assign hkey' =>
      rw [h] at hkey'
      exact absurd hkey' not_key?_of_bracket
  | assign hkey hvalue hend _ ih =>
    cases h' with
    | done h' =>
      obtain ⟨c, rest, hstart, -⟩ := skipBlanks_eq_of_key? hkey
      rw [h'] at hstart
      cases hstart
    | skip h' hend' =>
      obtain ⟨c, rest, hstart, hc⟩ := skipBlanks_eq_of_key? hkey
      rw [(startsKey_of_endOfLine? hend' hstart).1] at hc
      cases hc
    | table h' =>
      rw [h'] at hkey
      exact absurd hkey not_key?_of_bracket
    | element h' =>
      rw [h'] at hkey
      exact absurd hkey not_key?_of_bracket
    | assign hkey' hvalue' hend' hnext' =>
      rw [hkey] at hkey'
      cases hkey'
      obtain ⟨rfl, rfl⟩ := hvalue.unique hvalue'
      rw [hend] at hend'
      cases hend'
      obtain ⟨rfl, rfl⟩ := ih hnext'
      exact ⟨rfl, rfl⟩

end Unique

/-! ### The reader of documents -/

/-- The statements have these entries and open these tables. -/
inductive Told : Outline → List Entry → List Address → List Statement → Prop where
  | nil {o : Outline} : Told o [] [] []
  | assign {o : Outline} {text : List Char} {inner es : List Entry} {hs : List Address}
      {a : Assignment} {ss : List Statement} (h : Says text inner a.value)
      (hnext : Told o es hs ss) :
      Told o (assigned (o.entry a.path a.key) text inner ++ es) hs (.assign a :: ss)
  | openTable {o : Outline} {es : List Entry} {hs : List Address} {path : List Key} {key : Key}
      {span : Span} {ss : List Statement} (hnext : Told (o.openTable path key) es hs ss) :
      Told o es ((o.openTable path key).current :: hs) (.openTable path key span :: ss)
  | openElement {o : Outline} {es : List Entry} {hs : List Address} {path : List Key} {key : Key}
      {span : Span} {ss : List Statement} (hnext : Told (o.openElement path key) es hs ss) :
      Told o es ((o.openElement path key).current :: hs) (.openElement path key span :: ss)

section Documents

variable {o : Outline} {cs next : List Char} {s : Statement} {done ss : List Statement}

/-- What follows a place is told, from whatever outline on. -/
def TellsOn (cs : List Char) (ss : List Statement) : Prop :=
  ∀ o, ∃ es hs, Lists o cs es hs ∧ Told o es hs ss

lemma statement?_tells (h : statement? (skipBlanks cs) = some (s, next)) (hnext : TellsOn next ss) :
    TellsOn cs (s :: ss) := by
  have hform := statement?_form h
  generalize hstart : skipBlanks cs = start at hform
  intro o
  cases hform with
  | assign ha hend =>
    have hread : ReadsWritten (value? (depthLimit - 1)) := value?_written (by decide)
    rw [← hstart] at ha
    obtain ⟨after, inner, hkey, hvalue, hsaid⟩ := assignment?_written hread ha
    obtain ⟨es, hs, hlists, htold⟩ := hnext o
    exact ⟨_, hs, .assign hkey hvalue hend hlists, .assign hsaid htold⟩
  | @openTable inner stop next path key hkey hend =>
    obtain ⟨es, hs, hlists, htold⟩ := hnext (o.openTable path key)
    exact ⟨es, _, .table hstart hkey hend hlists, .openTable htold⟩
  | @openElement inner stop next path key hkey hend =>
    obtain ⟨es, hs, hlists, htold⟩ := hnext (o.openElement path key)
    exact ⟨es, _, .element hstart hkey hend hlists, .openElement htold⟩

lemma statementsFrom_tells {fuel : Nat} (h : statementsFrom done fuel cs = some ss) :
    ∃ new, ss = done.reverse ++ new ∧ TellsOn cs new := by
  induction fuel generalizing done cs with
  | zero => cases h
  | succ fuel ih =>
    rw [statementsFrom] at h
    split at h
    · next hstart =>
      cases h
      exact ⟨[], (List.append_nil _).symm, fun o => ⟨[], [], .done hstart, .nil⟩⟩
    · next note hstart =>
      obtain ⟨next, hend, h⟩ := Option.bind_eq_some_iff.1 h
      obtain ⟨new, rfl, htells⟩ := ih h
      refine ⟨new, rfl, fun o => ?_⟩
      obtain ⟨es, hs, hlists, htold⟩ := htells o
      refine ⟨es, hs, .skip ?_ ?_ hlists, htold⟩
      · rw [hstart]
        exact List.cons_ne_nil _ _
      · rwa [endOfLine?, hstart]
    · next hne hnote =>
      split at h
      · next next hend =>
        obtain ⟨new, rfl, htells⟩ := ih h
        refine ⟨new, rfl, fun o => ?_⟩
        obtain ⟨es, hs, hlists, htold⟩ := htells o
        refine ⟨es, hs, .skip hne ?_ hlists, htold⟩
        unfold newline? at hend
        split at hend
        · next heq => rwa [endOfLine?, heq]
        · next heq => rwa [endOfLine?, heq]
        · cases hend
      · obtain ⟨⟨s, next⟩, hs, h⟩ := Option.bind_eq_some_iff.1 h
        obtain ⟨new, rfl, htells⟩ := ih h
        refine ⟨s :: new, ?_, statement?_tells hs htells⟩
        rw [List.reverse_cons, List.append_assoc, List.singleton_append]

/-- The text after a byte order mark. -/
def withoutMark : List Char → List Char
  | '\uFEFF' :: cs => cs
  | cs => cs

lemma statements?_told (h : statements? cs = some ss) :
    ∃ es hs, Lists .start (withoutMark cs) es hs ∧ Told .start es hs ss := by
  unfold statements? at h
  split at h
  · obtain ⟨new, rfl, htells⟩ := statementsFrom_tells h
    exact htells .start
  · next hmark =>
    obtain ⟨new, rfl, htells⟩ := statementsFrom_tells h
    have hsame : withoutMark cs = cs := by
      unfold withoutMark
      split
      · exact absurd rfl (hmark _)
      · rfl
    rw [hsame]
    exact htells .start

end Documents

end MemberRelay.Proofs
