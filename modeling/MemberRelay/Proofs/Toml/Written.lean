import MemberRelay.Proofs.Toml.Reach

/-!
# What a text assigns

The entries that a value writes inside itself, in arrays and braces at any depth: the address of each
below the value, and the text from its own value on. They are found without building anything.
-/

namespace MemberRelay.Proofs
open Toml

/-- An address, and the text that starts with the value assigned there. -/
abbrev Entry := Address × List Char

/-- The entries inside a value, as seen from above. -/
def below (a : Address) (entries : List Entry) : List Entry := entries.map fun e => (a ++ e.1, e.2)

/-- An entry and those inside its value. -/
def assigned (a : Address) (text : List Char) (inner : List Entry) : List Entry :=
  (a, text) :: below a inner

/-- A value; the items of an array from the `i`th one on, and what follows the `i`th one; the pairs
between braces, and what follows a pair. -/
inductive Phrase where
  | value
  | items (i : Nat)
  | afterItem (i : Nat)
  | pairs
  | afterPair

/-- The phrase at the start of a text, with the entries that it writes and the text after it. -/
inductive Writes : Phrase → List Char → List Entry → List Char → Prop where
  | scalar {cs rest : List Char} {s : Scalar} (h : scalar? cs = some (s, rest)) :
      Writes .value cs [] rest
  | array {cs rest : List Char} {es : List Entry} (h : Writes (.items 0) cs es rest) :
      Writes .value ('[' :: cs) es rest
  | noPair {cs rest : List Char} (h : skipBlanks cs = '\x7d' :: rest) :
      Writes .value ('\x7b' :: cs) [] rest
  | braces {cs rest : List Char} {es : List Entry} (h : Writes .pairs cs es rest) :
      Writes .value ('\x7b' :: cs) es rest
  | noItem {i : Nat} {cs rest : List Char} (h : skipFiller false cs = ']' :: rest) :
      Writes (.items i) cs [] rest
  | item {i : Nat} {cs stop rest : List Char} {es es' : List Entry}
      (h : Writes .value (skipFiller false cs) es stop)
      (hafter : Writes (.afterItem i) stop es' rest) :
      Writes (.items i) cs (below [.index i] es ++ es') rest
  | lastItem {i : Nat} {cs rest : List Char} (h : skipFiller false cs = ']' :: rest) :
      Writes (.afterItem i) cs [] rest
  | nextItem {i : Nat} {cs next rest : List Char} {es : List Entry}
      (h : skipFiller false cs = ',' :: next) (hnext : Writes (.items (i + 1)) next es rest) :
      Writes (.afterItem i) cs es rest
  | pair {cs text stop rest : List Char} {path : List Key} {key : Key} {es es' : List Entry}
      (hkey : key? cs = some ((path, key), '=' :: text))
      (h : Writes .value (skipBlanks text) es stop) (hafter : Writes .afterPair stop es' rest) :
      Writes .pairs cs (assigned (pathNames path ++ [.name key.name]) (skipBlanks text) es ++ es') rest
  | lastPair {cs rest : List Char} (h : skipBlanks cs = '\x7d' :: rest) :
      Writes .afterPair cs [] rest
  | nextPair {cs next rest : List Char} {es : List Entry} (h : skipBlanks cs = ',' :: next)
      (hnext : Writes .pairs next es rest) :
      Writes .afterPair cs es rest

/-! ### A text has one reading -/

section Unique

variable {p : Phrase} {cs cs' rest rest' : List Char} {c : Char} {es es' : List Entry}

lemma field?_of_not_digit {width least greatest : Nat} (h : Digits.isDigit 10 c = false)
    (hwidth : 0 < width) : field? width least greatest (c :: cs) = none := by
  obtain ⟨n, rfl⟩ := Nat.exists_eq_succ_of_ne_zero (Nat.ne_of_gt hwidth)
  simp [field?, h]

lemma scalar?_of_bracket (h : c = '[' ∨ c = ']' ∨ c = '\x7b') : scalar? (c :: cs) = none := by
  have hdigit : Digits.isDigit 10 c = false := by
    rcases h with rfl | rfl | rfl <;> decide
  have hmoment : moment? (c :: cs) = none := by
    simp [moment?, date?, time?, field?_of_not_digit hdigit]
  have hnumber : number? (c :: cs) = none := by
    rcases h with rfl | rfl | rfl <;>
      simp [number?, sign, unsigned?, wholeDigits?, digits?, hdigit]
  rcases h with rfl | rfl | rfl <;> simp [scalar?, hmoment, hnumber]

def startsKey (c : Char) : Bool := isBareKeyChar c || c = '"' || c = '\''

lemma key?_starts {r : (List Key × Key) × List Char} (h : key? cs = some r) :
    ∃ c rest, skipBlanks cs = c :: rest ∧ startsKey c = true := by
  obtain ⟨⟨keys, stop⟩, hkeys, -⟩ := Option.bind_eq_some_iff.1 h
  obtain ⟨⟨key, stop'⟩, hpart, -⟩ := Option.bind_eq_some_iff.1 hkeys
  cases hstart : skipBlanks cs with
  | nil =>
    rw [hstart] at hpart
    cases hpart
  | cons c rest =>
    refine ⟨c, rest, rfl, ?_⟩
    rw [hstart] at hpart
    by_contra hc
    simp only [startsKey, Bool.or_eq_true, decide_eq_true_eq, not_or] at hc
    obtain ⟨⟨hbare, hquote⟩, hquote'⟩ := hc
    have htake : (c :: rest).takeWhile isBareKeyChar = [] := List.takeWhile_cons_of_neg hbare
    have hstring : lineString? (c :: rest) = none := by simp [lineString?, hquote, hquote']
    rw [keyPart?, htake] at hpart
    simp [hstring] at hpart

lemma Writes.not_value_bracket : ¬Writes .value (']' :: cs) es rest := by
  intro h
  cases h with
  | scalar h =>
    rw [scalar?_of_bracket (by simp)] at h
    cases h

lemma Writes.not_pairs_brace (hcs : skipBlanks cs = '\x7d' :: cs') : ¬Writes .pairs cs es rest := by
  have hkey : ∀ r, key? cs ≠ some r := by
    intro r hr
    obtain ⟨c, stop, hstart, hc⟩ := key?_starts hr
    rw [hcs] at hstart
    cases hstart
    cases hc
  intro h
  cases h with
  | pair h => exact hkey _ h

/-- What a phrase writes is determined by its text. -/
theorem Writes.unique (h : Writes p cs es rest) (h' : Writes p cs es' rest') :
    es = es' ∧ rest = rest' := by
  induction h generalizing es' rest' with
  | scalar h =>
    cases h' with
    | scalar h' =>
      rw [h] at h'
      cases h'
      exact ⟨rfl, rfl⟩
    | array => rw [scalar?_of_bracket (by simp)] at h; cases h
    | noPair => rw [scalar?_of_bracket (by simp)] at h; cases h
    | braces => rw [scalar?_of_bracket (by simp)] at h; cases h
  | array h ih =>
    cases h' with
    | scalar h' => rw [scalar?_of_bracket (by simp)] at h'; cases h'
    | array h' => exact ih h'
  | noPair h =>
    cases h' with
    | scalar h' => rw [scalar?_of_bracket (by simp)] at h'; cases h'
    | noPair h' =>
      rw [h] at h'
      cases h'
      exact ⟨rfl, rfl⟩
    | braces h' => exact absurd h' (not_pairs_brace h)
  | braces h ih =>
    cases h' with
    | scalar h' => rw [scalar?_of_bracket (by simp)] at h'; cases h'
    | noPair h' => exact absurd h (not_pairs_brace h')
    | braces h' => exact ih h'
  | noItem h =>
    cases h' with
    | noItem h' =>
      rw [h] at h'
      cases h'
      exact ⟨rfl, rfl⟩
    | item h' => rw [h] at h'; exact absurd h' not_value_bracket
  | item h _ ih ihafter =>
    cases h' with
    | noItem h' => rw [h'] at h; exact absurd h not_value_bracket
    | item h' hafter' =>
      obtain ⟨rfl, rfl⟩ := ih h'
      obtain ⟨rfl, rfl⟩ := ihafter hafter'
      exact ⟨rfl, rfl⟩
  | lastItem h =>
    cases h' with
    | lastItem h' =>
      rw [h] at h'
      cases h'
      exact ⟨rfl, rfl⟩
    | nextItem h' => rw [h] at h'; cases h'
  | nextItem h _ ih =>
    cases h' with
    | lastItem h' => rw [h] at h'; cases h'
    | nextItem h' hnext' =>
      rw [h] at h'
      cases h'
      exact ih hnext'
  | pair hkey h _ ih ihafter =>
    cases h' with
    | pair hkey' h' hafter' =>
      rw [hkey] at hkey'
      cases hkey'
      obtain ⟨rfl, rfl⟩ := ih h'
      obtain ⟨rfl, rfl⟩ := ihafter hafter'
      exact ⟨rfl, rfl⟩
  | lastPair h =>
    cases h' with
    | lastPair h' =>
      rw [h] at h'
      cases h'
      exact ⟨rfl, rfl⟩
    | nextPair h' => rw [h] at h'; cases h'
  | nextPair h _ ih =>
    cases h' with
    | lastPair h' => rw [h] at h'; cases h'
    | nextPair h' hnext' =>
      rw [h] at h'
      cases h'
      exact ih hnext'

end Unique

/-! ### Values at any depth -/

/-- The value at the start of a text. -/
def Reads (text : List Char) (v : Value) : Prop := ∃ rest, value? (depthLimit - 1) text = some (v, rest)

section Depth

variable {read? read?' : Reader Value} {cs : List Char}

/-- The second reader takes what the first one takes, and reads the same there. -/
def ReadsMore (read? read?' : Reader Value) : Prop := ∀ cs r, read? cs = some r → read?' cs = some r

lemma itemsFrom_more (hmore : ReadsMore read? read?') {done : List Value} {fuel : Nat}
    {r : List Value × List Char} (h : itemsFrom read? done fuel cs = some r) :
    itemsFrom read?' done fuel cs = some r := by
  induction fuel generalizing done cs with
  | zero => cases h
  | succ fuel ih =>
    rw [itemsFrom] at h ⊢
    split at h
    · exact h
    · obtain ⟨⟨item, stop⟩, hitem, h⟩ := Option.bind_eq_some_iff.1 h
      refine Option.bind_eq_some_iff.2 ⟨_, hmore _ _ hitem, ?_⟩
      dsimp only at h ⊢
      split at h
      · exact ih h
      · exact h
      · cases h

lemma assignment?_more (hmore : ReadsMore read? read?') {r : Assignment × List Char}
    (h : assignment? read? cs = some r) : assignment? read?' cs = some r := by
  obtain ⟨⟨⟨path, key⟩, cs₁⟩, hkey, h⟩ := Option.bind_eq_some_iff.1 h
  obtain ⟨cs₂, hmark, h⟩ := Option.bind_eq_some_iff.1 h
  obtain ⟨⟨v, cs₃⟩, hv, h⟩ := Option.bind_eq_some_iff.1 h
  refine Option.bind_eq_some_iff.2 ⟨_, hkey, Option.bind_eq_some_iff.2 ⟨_, hmark, ?_⟩⟩
  exact Option.bind_eq_some_iff.2 ⟨_, hmore _ _ hv, h⟩

lemma assignmentsFrom_more (hmore : ReadsMore read? read?') {done : List Assignment} {fuel : Nat}
    {r : List Assignment × List Char} (h : assignmentsFrom read? done fuel cs = some r) :
    assignmentsFrom read?' done fuel cs = some r := by
  induction fuel generalizing done cs with
  | zero => cases h
  | succ fuel ih =>
    obtain ⟨⟨a, stop⟩, ha, h⟩ := Option.bind_eq_some_iff.1 h
    refine Option.bind_eq_some_iff.2 ⟨_, assignment?_more hmore ha, ?_⟩
    dsimp only at h ⊢
    split at h
    · exact ih h
    · exact h
    · cases h

lemma value?_succ (depth : Nat) : ReadsMore (value? depth) (value? (depth + 1)) := by
  induction depth with
  | zero =>
    intro cs r h
    obtain ⟨⟨s, rest⟩, hs, -⟩ := Option.map_eq_some_iff.1 h
    unfold value?
    split
    · rw [scalar?_of_bracket (by simp)] at hs
      cases hs
    · rw [scalar?_of_bracket (by simp)] at hs
      cases hs
    · exact h
  | succ depth ih =>
    intro cs r h
    unfold value? at h ⊢
    split at h
    · obtain ⟨_, hitems, h⟩ := Option.bind_eq_some_iff.1 h
      exact Option.bind_eq_some_iff.2 ⟨_, itemsFrom_more ih hitems, h⟩
    · obtain ⟨_, hbraced, h⟩ := Option.bind_eq_some_iff.1 h
      refine Option.bind_eq_some_iff.2 ⟨_, ?_, h⟩
      rw [braced?] at hbraced ⊢
      split at hbraced
      · exact hbraced
      · exact assignmentsFrom_more ih hbraced
    · exact h

/-- A value reads the same wherever it stands. -/
lemma reads_of_value? {depth : Nat} {v : Value} {rest : List Char} (hdepth : depth < depthLimit)
    (h : value? depth cs = some (v, rest)) : Reads cs v := by
  have hmore : ∀ n, ReadsMore (value? depth) (value? (depth + n)) := by
    intro n
    induction n with
    | zero => exact fun _ _ h => h
    | succ n ih => exact fun cs r h => value?_succ _ cs r (ih cs r h)
  obtain ⟨n, hn⟩ := Nat.exists_eq_add_of_le (Nat.le_sub_one_of_lt hdepth)
  refine ⟨rest, ?_⟩
  rw [hn]
  exact hmore n cs _ h

end Depth

end MemberRelay.Proofs
