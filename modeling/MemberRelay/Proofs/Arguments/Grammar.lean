import Mathlib.Data.List.TakeWhile
import MemberRelay.Arguments.Scan
import MemberRelay.Proofs.Text.Bytes

/-!
# The grammar of the command line

A command line is written from items, which are options with their values and words of their own. The
grammar says how an item is written and what a list of items denotes; it knows nothing of an order in
which a line is read.
-/

namespace MemberRelay.Proofs
open Arguments Utf8

/-! ### Words -/

def StartsWith (p v : String) : Prop := ∃ r, v = p ++ r

/-- A text that may stand apart from its option, or alone. -/
def StandsApart (v : String) : Prop := v = "-" ∨ ¬StartsWith "-" v

/-- An option and its value in one word. -/
inductive Attached (o : ValueOption) (v : String) : String → Prop where
  | joined (hne : v ≠ "") (heq : ¬StartsWith "=" v) : Attached o v ("-" ++ o.short.toString ++ v)
  | equals : Attached o v ("-" ++ o.short.toString ++ "=" ++ v)
  | long : Attached o v ("--" ++ o.long ++ "=" ++ v)

/-- An option without its value. -/
inductive Named (o : ValueOption) : String → Prop where
  | short : Named o ("-" ++ o.short.toString)
  | long : Named o ("--" ++ o.long)

inductive Item where
  | option (o : ValueOption) (v : String)
  | positional (v : String)

/-- The words for items after a command. All words after two dashes are positional. -/
inductive Written : List Item → List String → Prop where
  | nil : Written [] []
  | dashes (vs : List String) : Written (vs.map .positional) ("--" :: vs)
  | attached {o v w items ws} (h : Attached o v w) (rest : Written items ws) :
      Written (.option o v :: items) (w :: ws)
  | apart {o v w items ws} (h : Named o w) (hv : StandsApart v) (rest : Written items ws) :
      Written (.option o v :: items) (w :: v :: ws)
  | positional {v items ws} (hv : StandsApart v) (rest : Written items ws) :
      Written (.positional v :: items) (v :: ws)

/-! ### Meanings -/

/-- The values that items give to an option. -/
def valuesOf (o : ValueOption) (items : List Item) : List String :=
  items.filterMap fun
    | .option o' v => if o' = o then some v else none
    | .positional _ => none

def positionals (items : List Item) : List String :=
  items.filterMap fun
    | .option _ _ => none
    | .positional v => some v

/-- Each option belongs to the command and stands at most once. -/
structure Permitted (scope : Scope) (items : List Item) : Prop where
  belongs : ∀ o v, .option o v ∈ items → o ∈ scope.valueOptions
  once : ∀ o, (valuesOf o items).length ≤ 1

/-- The port of the items, if they have one. -/
inductive PortOf (items : List Item) : Option UInt16 → Prop where
  | none (h : valuesOf .port items = []) : PortOf items none
  | some {s n} (h : valuesOf .port items = [s]) (hport : port s = .ok n) : PortOf items (some n)

/-- The command of the items. -/
inductive Means (items : List Item) : Scope → Command → Prop where
  | serve (h : positionals items = []) : Means items .serve .serve
  | send {address port? payload} (haddress : valuesOf .address items = [address])
      (hport : PortOf items port?) (hpayload : positionals items = [payload]) :
      Means items .send (.send address port? payload)
  | version {address port?} (haddress : valuesOf .address items = [address])
      (hport : PortOf items port?) (hpositionals : positionals items = []) :
      Means items .version (.version address port?)

/-- The words before the name of the command: at most one option, the directory. -/
inductive Front : Option String → List String → Prop where
  | none : Front none []
  | attached {v w} (h : Attached .directory v w) : Front (some v) [w]
  | apart {v w} (h : Named .directory w) (hv : StandsApart v) : Front (some v) [w, v]

/-- The words are a command line for the invocation. The directory after the command goes before
the one in front of it. -/
inductive Denotes : List String → Invocation → Prop where
  | line {program front name rest scope items directory? command} (hfront : Front directory? front)
      (hname : scope.name? = some name) (hrest : Written items rest)
      (hpermitted : Permitted scope items) (hmeans : Means items scope command) :
      Denotes (program :: (front ++ name :: rest))
        ⟨(valuesOf .directory items).head? <|> directory?, command⟩

/-! ### Reading one word -/

section Words

variable {p p' : Progress} {scope : Scope} {o : ValueOption} {v w r : String}

lemma bytes_ne_nil (h : r ≠ "") : ∃ b bs, bytes r = b :: bs := by
  cases hr : bytes r with
  | nil =>
    have hempty : bytes "" = [] := rfl
    exact absurd (bytes_injective (hr.trans hempty.symm)) h
  | cons b bs => exact ⟨b, bs, rfl⟩

/-- A text starts with an ASCII letter if its bytes do. -/
lemma startsWith_of_bytes {p : String} (bs : List UInt8) (h : bytes v = bytes p ++ bs) :
    StartsWith p v := by
  obtain ⟨r, hr, -⟩ := eq_append_of_bytes h
  exact ⟨r, hr⟩

lemma splitLong_append {name value : List UInt8} (h : ∀ b ∈ name, b ≠ 0x3D) :
    Progress.splitLong (name ++ 0x3D :: value) = (name, some value) := by
  have htake : (name ++ 0x3D :: value).takeWhile (· ≠ 0x3D) = name := by
    rw [List.takeWhile_append_of_pos (by simpa using h)]
    simp
  have hdrop : (name ++ 0x3D :: value).dropWhile (· ≠ 0x3D) = 0x3D :: value := by
    rw [List.dropWhile_append_of_pos (by simpa using h)]
    simp
  rw [Progress.splitLong, htake, hdrop]

lemma splitLong_of_not_mem {name : List UInt8} (h : ∀ b ∈ name, b ≠ 0x3D) :
    Progress.splitLong name = (name, none) := by
  have hdrop : name.dropWhile (· ≠ 0x3D) = [] := by
    rw [List.dropWhile_eq_nil_iff]
    simpa using h
  rw [Progress.splitLong, hdrop]

/-- The parts of a long option are what it is made of. -/
lemma splitLong_parts (bs : List UInt8) :
    Progress.splitLong bs = (bs, none) ∨
      ∃ name value, Progress.splitLong bs = (name, some value) ∧ bs = name ++ 0x3D :: value := by
  unfold Progress.splitLong
  split
  · exact .inl rfl
  · next b value hdrop =>
    right
    refine ⟨_, value, rfl, ?_⟩
    have hb : b = 0x3D := by
      have hhead := List.head?_dropWhile_not (· ≠ 0x3D) bs
      rw [hdrop] at hhead
      simpa using hhead
    subst hb
    rw [← hdrop]
    exact List.takeWhile_append_dropWhile.symm

lemma find?_long (ho : o ∈ scope.valueOptions) :
    scope.switches.find? (·.long = o.long) = some (.value o) := by
  cases scope <;> cases o <;> first | rfl | simp [Scope.valueOptions] at ho

lemma find?_short (ho : o ∈ scope.valueOptions) :
    scope.switches.find? (·.short = o.short) = some (.value o) := by
  cases scope <;> cases o <;> first | rfl | simp [Scope.valueOptions] at ho

lemma mem_valueOptions_of_switch (h : Switch.value o ∈ scope.switches) : o ∈ scope.valueOptions := by
  simpa [Scope.switches] using h

/-- An option with one dash. -/
lemma argument_short (hopen : p.escaped = false) (hne : r ≠ "") (hr : ¬StartsWith "-" r) :
    p.argument scope (bytes ("-" ++ r)) = p.short scope (bytes r) := by
  obtain ⟨b, bs, hb⟩ := bytes_ne_nil hne
  have hdash : b ≠ 0x2D := by
    rintro rfl
    exact hr (startsWith_of_bytes bs hb)
  have hbytes : bytes ("-" ++ r) = 0x2D :: b :: bs := by
    rw [bytes_append, hb]
    rfl
  rw [hbytes, hb]
  unfold Progress.argument
  simp [hopen, hdash]

/-- An option with two dashes. -/
lemma argument_long (hopen : p.escaped = false) (hne : r ≠ "") :
    p.argument scope (bytes ("--" ++ r)) =
      p.long scope (Progress.splitLong (bytes r)).1 (Progress.splitLong (bytes r)).2 := by
  obtain ⟨b, bs, hb⟩ := bytes_ne_nil hne
  have hbytes : bytes ("--" ++ r) = 0x2D :: 0x2D :: b :: bs := by
    rw [bytes_append, hb]
    rfl
  rw [hbytes, hb]
  unfold Progress.argument
  simp [hopen]

lemma argument_dashes (hopen : p.escaped = false) :
    p.argument scope (bytes "--") = .ok { p with escaped := true } := by
  have hbytes : bytes "--" = [0x2D, 0x2D] := rfl
  rw [hbytes]
  unfold Progress.argument
  simp [hopen]

lemma argument_escaped {bs : List UInt8} (hescaped : p.escaped = true) :
    p.argument scope bs = p.word scope bs := by
  unfold Progress.argument
  simp [hescaped]

/-- A word that is no option. -/
lemma argument_apart (hopen : p.escaped = false) (h : StandsApart w) :
    p.argument scope (bytes w) = p.word scope (bytes w) := by
  unfold Progress.argument
  rw [hopen]
  rcases h with rfl | h
  · rfl
  · have hno : ∀ bs, bytes w ≠ 0x2D :: bs := by
      intro bs hbs
      exact h (startsWith_of_bytes bs hbs)
    simp only [Bool.false_eq_true, if_false]
    split
    · next hbs => exact absurd hbs (hno _)
    · next hbs => exact absurd hbs (hno _)
    · next hbs => exact absurd hbs (hno _)
    · rfl

/-- The letter of an option is one byte, and no dash. -/
lemma bytes_letter : ∃ b, bytes o.short.toString = [b] ∧ b.toNat = o.short.toNat ∧ b ≠ 0x2D ∧
    next b = fun bs => (some o.short, bs) := by
  cases o
  · exact ⟨0x64, rfl, rfl, by decide, rfl⟩
  · exact ⟨0x61, rfl, rfl, by decide, rfl⟩
  · exact ⟨0x70, rfl, rfl, by decide, rfl⟩

/-- The letter of an option and what is attached to it. -/
lemma argument_letter (hopen : p.escaped = false) (ho : o ∈ scope.valueOptions) :
    p.argument scope (bytes ("-" ++ o.short.toString ++ v)) =
      p.switch scope (.value o) (Progress.attachedValue? (bytes v)) := by
  obtain ⟨b, hb, -, hdash, hnext⟩ := bytes_letter (o := o)
  have hr : bytes (o.short.toString ++ v) = b :: bytes v := by
    rw [bytes_append, hb]
    rfl
  have hne : o.short.toString ++ v ≠ "" := by
    intro h
    rw [h] at hr
    cases hr
  have hstart : ¬StartsWith "-" (o.short.toString ++ v) := by
    rintro ⟨r, h⟩
    rw [h, bytes_append] at hr
    exact hdash (List.cons.inj hr).1.symm
  rw [String.append_assoc, argument_short hopen hne hstart, hr, Progress.short, hnext]
  simp [find?_short ho]

lemma long_no_equals : ∀ b ∈ bytes o.long, b ≠ 0x3D := by
  have hall : (bytes o.long).all (· != 0x3D) = true := by cases o <;> decide
  intro b hb
  exact bne_iff_ne.1 (List.all_eq_true.1 hall b hb)

lemma long_name {value? : Option (List UInt8)} (ho : o ∈ scope.valueOptions) :
    p.long scope (bytes o.long) value? = p.switch scope (.value o) value? := by
  unfold Progress.long
  rw [text?_bytes]
  simp [find?_long ho]

/-- An option with its value in the same word. -/
lemma argument_attached (hopen : p.escaped = false) (ho : o ∈ scope.valueOptions)
    (h : Attached o v w) : p.argument scope (bytes w) = p.attach o (bytes v) := by
  cases h with
  | joined hne heq =>
    rw [argument_letter hopen ho]
    obtain ⟨b, bs, hb⟩ := bytes_ne_nil hne
    have hb' : b ≠ 0x3D := by
      rintro rfl
      exact heq (startsWith_of_bytes bs hb)
    have hvalue : Progress.attachedValue? (bytes v) = some (bytes v) := by
      rw [hb]
      unfold Progress.attachedValue?
      simp [hb']
    rw [hvalue]
    rfl
  | equals =>
    rw [String.append_assoc, argument_letter hopen ho, bytes_append]
    rfl
  | long =>
    have hne : o.long ++ "=" ++ v ≠ "" := by
      cases o <;> simp [ValueOption.long]
    have hsplit : Progress.splitLong (bytes (o.long ++ "=" ++ v)) =
        (bytes o.long, some (bytes v)) := by
      rw [bytes_append, bytes_append, List.append_assoc]
      exact splitLong_append long_no_equals
    have hword : "--" ++ o.long ++ "=" ++ v = "--" ++ (o.long ++ "=" ++ v) := by
      simp only [String.append_assoc]
    rw [hword, argument_long hopen hne, hsplit, long_name ho]
    rfl

/-- An option that waits for its value. -/
lemma argument_named (hopen : p.escaped = false) (ho : o ∈ scope.valueOptions) (h : Named o w) :
    p.argument scope (bytes w) = p.await (.waiting o) := by
  cases h with
  | short =>
    have hletter := argument_letter (v := "") hopen ho
    rw [String.append_empty] at hletter
    exact hletter
  | long =>
    have hne : o.long ≠ "" := by
      cases o <;> simp [ValueOption.long]
    rw [argument_long hopen hne, splitLong_of_not_mem long_no_equals, long_name ho]
    rfl

lemma Attached.dash (h : Attached o v w) : StartsWith "-" w := by
  cases h with
  | joined _ _ => exact ⟨o.short.toString ++ v, String.append_assoc⟩
  | equals => exact ⟨o.short.toString ++ "=" ++ v, by simp only [String.append_assoc]⟩
  | long => exact ⟨"-" ++ o.long ++ "=" ++ v, by simp only [← String.append_assoc]; rfl⟩

lemma Named.dash (h : Named o w) : StartsWith "-" w := by
  cases h with
  | short => exact ⟨o.short.toString, rfl⟩
  | long => exact ⟨"-" ++ o.long, by simp only [← String.append_assoc]; rfl⟩

/-! ### What a word can be -/

lemma word_cases (w : String) :
    w = "--" ∨ (∃ r, r ≠ "" ∧ w = "--" ++ r) ∨
      (∃ r, r ≠ "" ∧ ¬StartsWith "-" r ∧ w = "-" ++ r) ∨ StandsApart w := by
  by_cases hdash : StartsWith "-" w
  · obtain ⟨r, rfl⟩ := hdash
    by_cases hr : StartsWith "-" r
    · obtain ⟨r, rfl⟩ := hr
      have htwo : "-" ++ ("-" ++ r) = "--" ++ r := by
        rw [← String.append_assoc]
        rfl
      rw [htwo]
      by_cases hne : r = ""
      · rw [hne]
        exact .inl rfl
      · exact .inr (.inl ⟨r, hne, rfl⟩)
    · by_cases hne : r = ""
      · rw [hne]
        exact .inr (.inr (.inr (.inl rfl)))
      · exact .inr (.inr (.inl ⟨r, hne, hr, rfl⟩))
  · exact .inr (.inr (.inr (.inr hdash)))

/-- A flag ends the reading. -/
lemma request_ne_ok {f : Flag} : p.request scope f ≠ .ok p' := by
  unfold Progress.request
  cases p.settle with
  | error e => exact fun h => by cases h
  | ok v => cases f <;> exact fun h => by cases h

/-- An option by its letter is one with a value. -/
lemma short_ok (hne : r ≠ "") (h : p.short scope (bytes r) = .ok p') :
    ∃ o ∈ scope.valueOptions, Named o ("-" ++ r) ∨ ∃ v, Attached o v ("-" ++ r) := by
  obtain ⟨b, bs, hb⟩ := bytes_ne_nil hne
  rw [hb, Progress.short] at h
  split at h
  · cases h
  · next c rest hnext =>
    split at h
    · cases h
    · next o hfind =>
      have ho := mem_valueOptions_of_switch (List.mem_of_find?_eq_some hfind)
      have hletter := List.find?_some hfind
      have hc : c = o.short := (of_decide_eq_true hletter).symm
      subst hc
      obtain ⟨b', hb', hnat, -, -⟩ := bytes_letter (o := o)
      obtain ⟨hread, -⟩ := next_eq_some hnext (by cases o <;> decide) (by cases o <;> decide)
      have hsame : b = b' := UInt8.toNat_inj.1 (hread.trans hnat.symm)
      have hr : bytes r = bytes o.short.toString ++ bs := by
        rw [hb', hb, hsame]
        rfl
      obtain ⟨v, rfl, -⟩ := eq_append_of_bytes hr
      refine ⟨o, ho, ?_⟩
      rw [← String.append_assoc]
      by_cases hv : v = ""
      · left
        rw [hv, String.append_empty]
        exact .short
      · right
        by_cases heq : StartsWith "=" v
        · obtain ⟨v, rfl⟩ := heq
          refine ⟨v, ?_⟩
          rw [← String.append_assoc]
          exact .equals
        · exact ⟨v, .joined hv heq⟩
    · exact absurd h request_ne_ok

/-- An option by its name is one with a value. -/
lemma long_ok (h : p.long scope (Progress.splitLong (bytes r)).1 (Progress.splitLong (bytes r)).2 =
    .ok p') : ∃ o ∈ scope.valueOptions, Named o ("--" ++ r) ∨ ∃ v, Attached o v ("--" ++ r) := by
  unfold Progress.long at h
  split at h
  · next s hfind =>
    obtain ⟨n, hn, hfind⟩ := Option.bind_eq_some_iff.1 hfind
    have hmatch := List.find?_some hfind
    have hname : s.long = n := of_decide_eq_true hmatch
    have hbytes := text?_eq_some_iff.1 hn
    cases s with
    | value o =>
      refine ⟨o, mem_valueOptions_of_switch (List.mem_of_find?_eq_some hfind), ?_⟩
      have hlong : o.long = n := hname
      rw [← hlong] at hbytes
      rcases splitLong_parts (bytes r) with hsplit | ⟨name, value, hsplit, hr⟩
      · left
        rw [hsplit] at hbytes
        rw [bytes_injective hbytes]
        exact .long
      · right
        rw [hsplit] at hbytes
        have hparts : bytes r = bytes (o.long ++ "=") ++ value := by
          have hname : name = bytes o.long := hbytes
          rw [hr, hname, bytes_append, List.append_assoc]
          rfl
        obtain ⟨v, rfl, -⟩ := eq_append_of_bytes hparts
        refine ⟨v, ?_⟩
        rw [← String.append_assoc, ← String.append_assoc]
        exact .long
    | flag f =>
      unfold Progress.switch at h
      split at h
      · next heq _ => cases heq
      · next heq _ => cases heq
      · cases h
      · exact absurd h request_ne_ok
  · cases h

/-- A word that is read is an option with its value or without, or it can stand apart, or it ends
the options. -/
theorem argument_ok (hopen : p.escaped = false) (h : p.argument scope (bytes w) = .ok p') :
    w = "--" ∨ (∃ o ∈ scope.valueOptions, Named o w ∨ ∃ v, Attached o v w) ∨ StandsApart w := by
  rcases word_cases w with hw | ⟨r, hne, rfl⟩ | ⟨r, hne, hr, rfl⟩ | hw
  · exact .inl hw
  · rw [argument_long hopen hne] at h
    exact .inr (.inl (long_ok h))
  · rw [argument_short hopen hne hr] at h
    exact .inr (.inl (short_ok hne h))
  · exact .inr (.inr hw)

end Words

end MemberRelay.Proofs
