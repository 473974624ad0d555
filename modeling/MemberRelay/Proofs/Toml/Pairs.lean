import MemberRelay.Proofs.Toml.Spelling

/-!
# Spellings of pairs

How a text may write keys with their values, alone and between braces, with blanks wherever they may
stand. Each reader takes just what is spelled and leaves the rest.
-/

namespace MemberRelay.Proofs
open Toml

def Blanks (b : List Char) : Prop := ∀ c ∈ b, isBlank c

/-- A name that needs no quotes. -/
def IsBare (n : String) : Prop := n.toList ≠ [] ∧ ∀ c ∈ n.toList, isBareKeyChar c

instance (n : String) : Decidable (IsBare n) :=
  decidable_of_iff (n.toList ≠ [] ∧ n.toList.all isBareKeyChar) (by simp [IsBare])

/-- Names with points between them and blanks around each. -/
inductive SpellsKey : List String → List Char → Prop where
  | one {n : String} {b b' : List Char} (hb : Blanks b) (hn : IsBare n) (hb' : Blanks b') :
      SpellsKey [n] (b ++ (n.toList ++ b'))
  | more {n : String} {ns : List String} {b b' t : List Char} (hb : Blanks b) (hn : IsBare n)
      (hb' : Blanks b') (h : SpellsKey ns t) :
      SpellsKey (n :: ns) (b ++ (n.toList ++ (b' ++ '.' :: t)))

inductive SpellsPair : List String → Scalar → List Char → Prop where
  | pair {ns : List String} {s : Scalar} {k b v : List Char} (hk : SpellsKey ns k) (hb : Blanks b)
      (hv : SpellsScalar s v) : SpellsPair ns s (k ++ '=' :: (b ++ v))

/-- Pairs with commas between them, up to the brace that closes them. -/
inductive SpellsPairs : List (String × Scalar) → List Char → Prop where
  | last {n : String} {s : Scalar} {t b : List Char} (h : SpellsPair [n] s t) (hb : Blanks b) :
      SpellsPairs [(n, s)] (t ++ (b ++ ['\x7d']))
  | next {n : String} {s : Scalar} {ps : List (String × Scalar)} {t b ts : List Char}
      (h : SpellsPair [n] s t) (hb : Blanks b) (hs : SpellsPairs ps ts) :
      SpellsPairs ((n, s) :: ps) (t ++ (b ++ ',' :: ts))

/-! ### Keys -/

section Keys

variable {c : Char} {cs b k rest : List Char} {n : String} {ns : List String} {limit : Nat}

lemma blanks_nil : Blanks [] := by simp [Blanks]

lemma skipBlanks_append (hb : Blanks b) : skipBlanks (b ++ cs) = skipBlanks cs := by
  induction b with
  | nil => rfl
  | cons c b ih =>
    rw [Blanks, List.forall_mem_cons] at hb
    rw [skipBlanks, List.cons_append, List.dropWhile_cons_of_pos hb.1]
    exact ih hb.2

lemma skipBlanks_cons (hc : isBlank c = false) : skipBlanks (c :: cs) = c :: cs := by
  rw [skipBlanks, List.dropWhile_cons_of_neg (by simp [hc])]

/-- What may stand next to a key: nothing that the key could go on with. -/
structure EndsKey (c : Char) : Prop where
  blank : isBlank c = false
  bare : isBareKeyChar c = false
  point : c ≠ '.'

lemma not_bare_of_isBlank (h : isBlank c) : isBareKeyChar c = false := by
  simp only [isBlank, Bool.or_eq_true, decide_eq_true_eq] at h
  rcases h with rfl | rfl <;> decide

lemma not_isBlank_of_bare (h : isBareKeyChar c) : isBlank c = false := by
  by_contra hblank
  rw [Bool.not_eq_false] at hblank
  simp [not_bare_of_isBlank hblank] at h

lemma IsBare.cons (h : IsBare n) : ∃ c cs, n.toList = c :: cs ∧ isBareKeyChar c := by
  obtain ⟨c, cs, hcs⟩ := List.exists_cons_of_ne_nil h.1
  exact ⟨c, cs, hcs, h.2 c (by simp [hcs])⟩

lemma skipBlanks_bare (hb : Blanks b) (hn : IsBare n) :
    skipBlanks (b ++ (n.toList ++ cs)) = n.toList ++ cs := by
  obtain ⟨c, ds, hc, hbare⟩ := hn.cons
  rw [skipBlanks_append hb, hc, List.cons_append, skipBlanks_cons (not_isBlank_of_bare hbare)]

/-- A bare name ends at blanks or at what ends a key. -/
lemma keyPart?_bare (rest : List Char) (hn : IsBare n) (hb : Blanks b)
    (hc : isBareKeyChar c = false) :
    ∃ key : Key, keyPart? (n.toList ++ (b ++ c :: rest)) = some (key, b ++ c :: rest) ∧
      key.name = n := by
  obtain ⟨d, ds, hd, hbare⟩ : ∃ d ds, b ++ c :: rest = d :: ds ∧ ¬isBareKeyChar d := by
    cases b with
    | nil => exact ⟨c, rest, rfl, by simp [hc]⟩
    | cons d b => exact ⟨d, _, rfl, by simp [not_bare_of_isBlank (hb d List.mem_cons_self)]⟩
  obtain ⟨e, es, he, -⟩ := hn.cons
  have htake : (n.toList ++ d :: ds).takeWhile isBareKeyChar = e :: es := by
    rw [List.takeWhile_append_of_pos hn.2, List.takeWhile_cons_of_neg hbare, List.append_nil, he]
  have hdrop : (n.toList ++ d :: ds).dropWhile isBareKeyChar = d :: ds := by
    rw [List.dropWhile_append_of_pos hn.2, List.dropWhile_cons_of_neg hbare]
  rw [hd]
  refine ⟨⟨n, n.toList ++ d :: ds, d :: ds⟩, ?_, rfl⟩
  rw [keyPart?, htake]
  simp only [hdrop]
  rw [← he, String.ofList_toList]

lemma eq_of_one_name {path : List Key} {key : Key}
    (h : path.map (·.name) ++ [key.name] = [n]) : path = [] ∧ key.name = n := by
  cases path with
  | nil => exact ⟨rfl, by simpa using h⟩
  | cons _ _ => simp at h

lemma eq_of_two_names {path : List Key} {key : Key} {m : String}
    (h : path.map (·.name) ++ [key.name] = [n, m]) :
    ∃ first, path = [first] ∧ first.name = n ∧ key.name = m := by
  match path with
  | [] => simp at h
  | [first] =>
    obtain ⟨hfirst, hkey⟩ : first.name = n ∧ key.name = m := by simpa using h
    exact ⟨first, rfl, hfirst, hkey⟩
  | _ :: _ :: _ => simp at h

lemma keyFrom?_spells (rest : List Char) (h : SpellsKey ns k) (hlimit : ns.length ≤ limit)
    (hc : EndsKey c) :
    ∃ keys, keyFrom? limit (k ++ c :: rest) = some (keys, c :: rest) ∧ keys.map (·.name) = ns := by
  induction h generalizing limit with
  | @one n b b' hb hn hb' =>
    obtain ⟨limit, rfl⟩ := Nat.exists_eq_succ_of_ne_zero (Nat.ne_of_gt hlimit)
    obtain ⟨key, hkey, hname⟩ := keyPart?_bare rest hn hb' hc.bare
    refine ⟨[key], ?_, by simp [hname]⟩
    rw [keyFrom?, List.append_assoc, List.append_assoc, skipBlanks_bare hb hn, hkey]
    simp only [Option.bind_eq_bind, Option.bind_some, skipBlanks_append hb', skipBlanks_cons hc.blank]
    split
    · next heq => exact absurd (List.cons.inj heq).1 hc.point
    · rfl
  | @more n ns b b' t hb hn hb' _ ih =>
    obtain ⟨limit, rfl⟩ := Nat.exists_eq_succ_of_ne_zero (Nat.ne_of_gt (Nat.zero_lt_of_lt hlimit))
    have hpoint : isBareKeyChar '.' = false := by decide
    obtain ⟨key, hkey, hname⟩ := keyPart?_bare (t ++ c :: rest) hn hb' hpoint
    obtain ⟨keys, hkeys, hnames⟩ := ih (Nat.le_of_succ_le_succ hlimit)
    refine ⟨key :: keys, ?_, by simp [hname, hnames]⟩
    simp only [List.append_assoc, List.cons_append]
    rw [keyFrom?, skipBlanks_bare hb hn, hkey]
    simp only [Option.bind_eq_bind, Option.bind_some, skipBlanks_append hb',
      skipBlanks_cons (show isBlank '.' = false by decide), hkeys]

/-- A key starts with a character of its first name. -/
lemma SpellsKey.starts (rest : List Char) (h : SpellsKey ns k) :
    ∃ c cs, skipBlanks (k ++ rest) = c :: cs ∧ isBareKeyChar c := by
  cases h with
  | one hb hn | more hb hn =>
    obtain ⟨c, cs, hcs, hc⟩ := hn.cons
    rw [List.append_assoc, List.append_assoc, skipBlanks_bare hb hn, hcs]
    exact ⟨c, _, rfl, hc⟩

lemma key?_spells (rest : List Char) (h : SpellsKey ns k) (hlimit : ns.length < depthLimit)
    (hc : EndsKey c) :
    ∃ path key, key? (k ++ c :: rest) = some ((path, key), c :: rest) ∧
      path.map (·.name) ++ [key.name] = ns := by
  obtain ⟨keys, hkeys, hnames⟩ := keyFrom?_spells rest h (Nat.le_sub_one_of_lt hlimit) hc
  have hne : keys ≠ [] := by
    rintro rfl
    rw [← hnames] at h
    cases h
  obtain ⟨path, key, rfl⟩ := (List.eq_nil_or_concat keys).resolve_left hne
  refine ⟨path, key, ?_, by simpa using hnames⟩
  rw [key?, hkeys]
  simp

end Keys

/-! ### Pairs -/

section Pairs

variable {b t ts rest : List Char} {ns : List String} {s : Scalar} {ps : List (String × Scalar)}
  {depth fuel : Nat} {done : List Assignment}

/-- An assignment puts a scalar under a path of names. -/
structure Assigns (ns : List String) (s : Scalar) (a : Assignment) : Prop where
  names : a.path.map (·.name) ++ [a.key.name] = ns
  value : ∃ span, a.value = .scalar s span

lemma value?_of_scalar (depth : Nat) (h : SpellsScalar s t) (hfits : Storable s)
    (hrest : Stops rest) :
    ∃ span, value? depth (t ++ rest) = some (.scalar s span, rest) := by
  have hscalar := scalar?_of_spells h hfits hrest
  refine ⟨⟨t ++ rest, rest⟩, ?_⟩
  cases depth with
  | zero => rw [value?, hscalar, Option.map_some]
  | succ depth =>
    unfold value?
    split
    · next heq => rw [heq, scalar?_of_bracket (by simp)] at hscalar; cases hscalar
    · next heq => rw [heq, scalar?_of_bracket (by simp)] at hscalar; cases hscalar
    · rw [hscalar, Option.map_some]

/-- A scalar does not start with a blank. -/
lemma skipBlanks_scalar (hb : Blanks b) (h : SpellsScalar s t) :
    skipBlanks (b ++ (t ++ rest)) = t ++ rest := by
  obtain ⟨c, cs, rfl, hc⟩ : ∃ c cs, t = c :: cs ∧ isBlank c = false := by
    cases h with
    | yes | no | string => exact ⟨_, _, rfl, by decide⟩
    | integer n =>
      obtain ⟨c, cs, hcs⟩ := List.exists_cons_of_ne_nil (decimal_ne_nil n)
      have hc : c ∈ Digits.decimal n := by simp [hcs]
      have hspace : c ≠ ' ' := ne_of_mem_decimal hc (by decide)
      have htab : c ≠ '\t' := ne_of_mem_decimal hc (by decide)
      exact ⟨c, cs, hcs, by simp [isBlank, hspace, htab]⟩
  rw [skipBlanks_append hb, List.cons_append, skipBlanks_cons hc]

lemma endsKey_equals : EndsKey '=' := ⟨by decide, by decide, by decide⟩

lemma assignment?_spells (depth : Nat) (h : SpellsPair ns s t) (hfits : Storable s)
    (hlimit : ns.length < depthLimit) (hrest : Stops rest) :
    ∃ a, assignment? (value? depth) (t ++ rest) = some (a, rest) ∧ Assigns ns s a := by
  cases h with
  | @pair k b v hk hb hv =>
    obtain ⟨path, key, hkey, hnames⟩ := key?_spells (b ++ (v ++ rest)) hk hlimit endsKey_equals
    obtain ⟨span, hvalue⟩ := value?_of_scalar depth hv hfits hrest
    refine ⟨⟨path, key, .scalar s span⟩, ?_, hnames, span, rfl⟩
    simp only [List.append_assoc, List.cons_append, assignment?, hkey, Option.bind_eq_bind,
      Option.bind_some, Reader.literal?, if_true, skipBlanks_scalar hb hv, hvalue]

lemma stops_append {c : Char} {cs : List Char} (hb : Blanks b) (hc : c ∈ stops) :
    Stops (b ++ c :: cs) := by
  intro d hd
  cases b with
  | nil =>
    cases hd
    exact hc
  | cons e b =>
    cases hd
    have hblank := hb d List.mem_cons_self
    simp only [isBlank, Bool.or_eq_true, decide_eq_true_eq] at hblank
    rcases hblank with rfl | rfl <;> decide

/-- The pairs between braces are read one after the other. -/
lemma assignmentsFrom_spells (depth : Nat) (h : SpellsPairs ps ts) (hfits : ∀ p ∈ ps, Storable p.2)
    (hfuel : ps.length ≤ fuel) :
    ∃ as, assignmentsFrom (value? depth) done fuel (ts ++ rest) = some (done.reverse ++ as, rest) ∧
      List.Forall₂ (fun p a => Assigns [p.1] p.2 a) ps as := by
  induction h generalizing done fuel with
  | @last n s t b h hb =>
    obtain ⟨fuel, rfl⟩ := Nat.exists_eq_succ_of_ne_zero (Nat.ne_of_gt hfuel)
    have hstops : Stops (b ++ '\x7d' :: rest) := stops_append hb (by decide)
    obtain ⟨a, ha, hassigns⟩ :=
      assignment?_spells depth h (hfits _ List.mem_cons_self) (by simp [depthLimit]) hstops
    refine ⟨[a], ?_, .cons hassigns .nil⟩
    have hbrace : skipBlanks (b ++ '\x7d' :: rest) = '\x7d' :: rest := by
      rw [skipBlanks_append hb, skipBlanks_cons (by decide)]
    simp only [List.append_assoc, List.cons_append, List.nil_append, assignmentsFrom, ha,
      Option.bind_eq_bind, Option.bind_some, hbrace, List.reverse_cons]
  | @next n s ps t b ts h hb _ ih =>
    rw [List.forall_mem_cons] at hfits
    obtain ⟨fuel, rfl⟩ :=
      Nat.exists_eq_succ_of_ne_zero (Nat.ne_of_gt (Nat.zero_lt_of_lt hfuel))
    have hstops : Stops (b ++ ',' :: (ts ++ rest)) := stops_append hb (by decide)
    obtain ⟨a, ha, hassigns⟩ := assignment?_spells depth h hfits.1 (by simp [depthLimit]) hstops
    obtain ⟨as, has, hall⟩ := @ih fuel (a :: done) hfits.2 (Nat.le_of_succ_le_succ hfuel)
    refine ⟨a :: as, ?_, .cons hassigns hall⟩
    have hcomma : skipBlanks (b ++ ',' :: (ts ++ rest)) = ',' :: (ts ++ rest) := by
      rw [skipBlanks_append hb, skipBlanks_cons (by decide)]
    simp only [List.append_assoc, List.cons_append, assignmentsFrom, ha, Option.bind_eq_bind,
      Option.bind_some, hcomma, has, List.reverse_cons, List.nil_append]

lemma SpellsPairs.length_le (h : SpellsPairs ps ts) : ps.length ≤ ts.length := by
  induction h with
  | last =>
    simp only [List.length_append, List.length_singleton]
    omega
  | next _ _ _ ih =>
    simp only [List.length_cons, List.length_append]
    omega

lemma SpellsPairs.starts (rest : List Char) (h : SpellsPairs ps ts) :
    ∃ c cs, skipBlanks (ts ++ rest) = c :: cs ∧ isBareKeyChar c := by
  cases h with
  | last h | next h =>
    cases h with
    | pair hk =>
      rw [List.append_assoc, List.append_assoc]
      exact hk.starts _

lemma braced?_spells (depth : Nat) (rest : List Char) (h : SpellsPairs ps ts)
    (hfits : ∀ p ∈ ps, Storable p.2) :
    ∃ as, braced? (value? depth) (ts ++ rest) = some (as, rest) ∧
      List.Forall₂ (fun p a => Assigns [p.1] p.2 a) ps as := by
  have hfuel : ps.length ≤ (ts ++ rest).length := by
    have hlength := h.length_le
    rw [List.length_append]
    omega
  obtain ⟨as, has, hall⟩ := assignmentsFrom_spells depth h hfits hfuel
  refine ⟨as, ?_, hall⟩
  obtain ⟨c, cs, hstart, hc⟩ := h.starts rest
  rw [braced?]
  split
  · next heq =>
    rw [hstart] at heq
    cases heq
    cases hc
  · exact has

end Pairs

/-! ### Tables of pairs -/

/-- A table has just these pairs. -/
structure Holds (t : Table Value) (ps : List (String × Scalar)) : Prop where
  absent : ∀ n, n ∉ ps.map (·.1) → t.find? n = none
  present : ∀ n s, (n, s) ∈ ps → ∃ span, t.find? n = some (.scalar s span)

section Tables

variable {t t' : Table Value} {ps qs : List (String × Scalar)} {n : String}
  {key : Key} {as : List Assignment} {ts rest : List Char} {o : Origin}

lemma holds_empty : Holds (Table.empty o) [] := ⟨fun _ _ => rfl, nofun⟩

lemma Holds.of_entries (h : Holds t ps) (hentries : t'.entries = t.entries) : Holds t' ps := by
  have hfind : ∀ n, t'.find? n = t.find? n := by
    intro n
    rw [Table.find?, Table.find?, hentries]
  refine ⟨fun n hn => (hfind n).trans (h.absent n hn), ?_⟩
  intro n s hs
  rw [hfind]
  exact h.present n s hs

lemma Holds.push (s : Scalar) (span : Span) (h : Holds t ps) (hn : key.name ∉ ps.map (·.1)) :
    Holds (t.push key (.scalar s span)) (ps ++ [(key.name, s)]) := by
  have hfind := fun m => find?_push_of_none (v := .scalar s span) (m := m) (h.absent _ hn)
  constructor
  · intro m hm
    rw [List.map_append, List.mem_append, not_or, List.map_singleton, List.mem_singleton] at hm
    rw [hfind, if_neg hm.2]
    exact h.absent m hm.1
  · intro m s' hm
    rw [hfind]
    rcases List.mem_append.1 hm with hold | hnew
    · have hne : m ≠ key.name := by
        rintro rfl
        exact hn (List.mem_map_of_mem hold)
      rw [if_neg hne]
      exact h.present m s' hold
    · obtain ⟨rfl, rfl⟩ := Prod.mk.inj (List.mem_singleton.1 hnew)
      exact ⟨span, if_pos rfl⟩

lemma assign_here {v : Value} (ho : t.origin ≠ .dotted) (hfree : t.find? key.name = none) :
    t.assign [] key v = some (t.push key v) := by
  simp [Table.assign, Table.alter, ho, hfree]

lemma foldlM_assign (h : List.Forall₂ (fun p a => Assigns [p.1] p.2 a) ps as) (ht : Holds t qs)
    (ho : t.origin ≠ .dotted) (hnodup : ((qs ++ ps).map (·.1)).Nodup) :
    ∃ t', as.foldlM (fun t a => t.assign a.path a.key a.value) t = some t' ∧
      t'.origin = t.origin ∧ Holds t' (qs ++ ps) := by
  induction h generalizing t qs with
  | nil => exact ⟨t, rfl, rfl, by rwa [List.append_nil]⟩
  | @cons p a ps as ha _ ih =>
    obtain ⟨hnames, span, hvalue⟩ := ha
    obtain ⟨hpath, hkey⟩ := eq_of_one_name hnames
    have hnew : a.key.name ∉ qs.map (·.1) := by
      rw [List.map_append, List.nodup_append] at hnodup
      intro hmem
      exact hnodup.2.2 _ hmem _ (by rw [hkey]; exact List.mem_cons_self) rfl
    have hpush := ht.push p.2 span hnew
    rw [hkey] at hpush
    have happend : qs ++ p :: ps = qs ++ [(p.1, p.2)] ++ ps := by simp
    rw [happend] at hnodup ⊢
    obtain ⟨t', hrun, horigin, hholds⟩ := ih hpush ho hnodup
    refine ⟨t', ?_, horigin, hholds⟩
    rw [List.foldlM_cons, hpath, hvalue, assign_here ho (ht.absent _ hnew)]
    exact hrun

lemma value?_braces (depth : Nat) (rest : List Char) (h : SpellsPairs ps ts)
    (hfits : ∀ p ∈ ps, Storable p.2)
    (hnodup : (ps.map (·.1)).Nodup) :
    ∃ t, value? (depth + 1) ('\x7b' :: (ts ++ rest)) = some (.table t, rest) ∧
      t.origin = .braces ∧ Holds t ps := by
  obtain ⟨as, has, hall⟩ := braced?_spells depth rest h hfits
  obtain ⟨t, ht, horigin, hholds⟩ :=
    foldlM_assign (t := Table.empty .braces) hall holds_empty nofun hnodup
  refine ⟨{ t with span := some ⟨'\x7b' :: (ts ++ rest), rest⟩ }, ?_, horigin, hholds.of_entries rfl⟩
  have htable : ofAssignments? as = some t := ht
  simp only [value?, has, htable, Option.bind_eq_bind, Option.bind_some]

end Tables

end MemberRelay.Proofs
