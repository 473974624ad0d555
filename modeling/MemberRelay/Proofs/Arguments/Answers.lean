import MemberRelay.Program
import MemberRelay.Proofs.Arguments.Parsing

/-!
# Answers that last

A command line is read from left to right, and a problem with one of its words ends the reading there.
So such an answer is the same whatever words follow, but for advice that is made from all of them. What
is only seen at the end of the line, or when a value is looked at, gives way to the words that follow.
-/

namespace MemberRelay.Proofs
open Arguments Utf8

/-- What a rejection is about: one word, a value that was given or not, or the line as a whole. -/
inductive Concern where
  | word
  | value
  | line
  deriving DecidableEq

def concern : Rejection → Concern
  | .unknownArgument _ => .word
  | .unknownCommand _ => .word
  | .unexpectedValue _ _ => .word
  | .helpRequested _ => .word
  | .versionRequested _ => .word
  | .missingValue _ => .value
  | .repeated _ => .value
  | .invalidPort _ _ => .value
  | .notText => .value
  | .nothingGiven => .line
  | .missingCommand => .line
  | .missingSlots _ => .line

/-- The request of a flag. -/
def requestOf (scope : Scope) : Flag → Rejection
  | .help => .helpRequested (.scope scope)
  | .version => .versionRequested scope

/-- A word is a flag: its name, or its letter with whatever is attached to that. -/
def Flagged (f : Flag) (bs : List UInt8) : Prop :=
  bs = bytes ("--" ++ f.long) ∨ bytes ("-" ++ f.short.toString) <+: bs

/-! ### One word -/

section Words

variable {p q : Progress} {scope : Scope} {v : Values} {slot : Arguments.Slot} {o : ValueOption}
  {f : Flag} {bs : List UInt8} {r : Rejection}

lemma concern_of_put (h : v.put slot bs = .error r) : concern r = .value := by
  unfold Values.put at h
  split at h
  · cases h
    rfl
  · split at h
    · cases h
      rfl
    · unfold Values.assign at h
      split at h
      · cases h
      · cases h
      · split at h
        · cases h
        · cases h
          rfl
      · cases h

lemma concern_of_settle (h : p.settle = .error r) : concern r = .value := by
  unfold Progress.settle at h
  split at h
  · cases h
  · cases h
    rfl
  · exact concern_of_put h

lemma concern_of_await {pending : Pending} (h : p.await pending = .error r) : concern r = .value := by
  obtain h | ⟨u, -, h⟩ := bind_eq_error_iff.1 h
  · exact concern_of_settle h
  · cases h

lemma concern_of_attach (h : p.attach o bs = .error r) : concern r = .value := by
  obtain h | ⟨u, -, h⟩ := bind_eq_error_iff.1 h
  · exact concern_of_settle h
  · obtain h | ⟨u', -, h⟩ := bind_eq_error_iff.1 h
    · exact concern_of_put h
    · cases h

lemma request_error (h : p.request scope f = .error r) :
    concern r = .value ∨ r = requestOf scope f := by
  obtain h | ⟨u, -, h⟩ := bind_eq_error_iff.1 h
  · exact .inl (concern_of_settle h)
  · cases f <;> cases h <;> exact .inr rfl

lemma request_of_settle (h : p.settle = .ok v) :
    p.request scope f = .error (requestOf scope f) := by
  unfold Progress.request
  rw [h]
  cases f <;> rfl

/-- A word is refused for itself or for a value, never for the line as a whole, and just the flag for
help asks for it. -/
def Refuses (bs : List UInt8) (r : Rejection) : Prop :=
  concern r ≠ .line ∧ ∀ page, r = .helpRequested page → Flagged .help bs

lemma refuses_of_value (h : concern r = .value) : Refuses bs r := by
  refine ⟨by rw [h]; decide, ?_⟩
  rintro page rfl
  cases h

lemma refuses_unknown {word : String} : Refuses bs (.unknownArgument word) := ⟨nofun, nofun⟩

lemma refuses_of_request (hf : f = .help → Flagged .help bs) (h : p.request scope f = .error r) :
    Refuses bs r := by
  rcases request_error h with hvalue | rfl
  · exact refuses_of_value hvalue
  · cases f with
    | help => exact ⟨nofun, fun _ _ => hf rfl⟩
    | version => exact ⟨nofun, nofun⟩

lemma word_refuses {ws : List UInt8} (h : p.word scope ws = .error r) : Refuses bs r := by
  unfold Progress.word at h
  split at h
  · cases h
  · split at h
    · cases hawait : p.await (.given .payload ws) with
      | error e =>
        rw [hawait] at h
        cases h
        exact refuses_of_value (concern_of_await hawait)
      | ok q =>
        rw [hawait] at h
        cases h
    · cases h
      unfold Progress.stray
      split
      · exact ⟨nofun, nofun⟩
      · exact ⟨nofun, nofun⟩

lemma long_refuses
    (h : p.long scope (Progress.splitLong bs).1 (Progress.splitLong bs).2 = .error r) :
    Refuses (0x2D :: 0x2D :: bs) r := by
  unfold Progress.long at h
  split at h
  · next s hfind =>
    obtain ⟨n, hn, hfind⟩ := Option.bind_eq_some_iff.1 hfind
    have hmatch := List.find?_some hfind
    have hname : s.long = n := of_decide_eq_true hmatch
    unfold Progress.switch at h
    split at h
    · exact refuses_of_value (concern_of_attach h)
    · exact refuses_of_value (concern_of_await h)
    · cases h
      exact ⟨nofun, nofun⟩
    · next f hvalue _ =>
      refine refuses_of_request ?_ h
      rintro rfl
      left
      rw [← hname] at hn
      rcases splitLong_parts bs with hsplit | ⟨name, value, hsplit, -⟩
      · rw [hsplit] at hn
        have hbs : bs = bytes "help" := text?_eq_some_iff.1 hn
        rw [hbs]
        rfl
      · rw [hsplit] at hvalue
        cases hvalue
  · cases h
    exact refuses_unknown

lemma short_refuses (h : p.short scope bs = .error r) : Refuses (0x2D :: bs) r := by
  cases bs with
  | nil => cases h
  | cons b bs =>
    rw [Progress.short] at h
    split at h
    · cases h
      exact refuses_unknown
    · next c rest hnext =>
      split at h
      · cases h
        exact refuses_unknown
      · next o _ =>
        cases hvalue : Progress.attachedValue? rest with
        | none =>
          rw [hvalue] at h
          exact refuses_of_value (concern_of_await h)
        | some value =>
          rw [hvalue] at h
          exact refuses_of_value (concern_of_attach h)
      · next f hfind =>
        refine refuses_of_request ?_ h
        rintro rfl
        right
        have hmatch := List.find?_some hfind
        have hc : c = 'h' := (of_decide_eq_true hmatch).symm
        subst hc
        obtain ⟨hb, -⟩ := next_eq_some hnext (by decide) (by decide)
        have hb' : b = 0x68 := UInt8.toNat_inj.1 hb
        rw [hb']
        exact ⟨bs, rfl⟩

theorem argument_refuses (h : p.argument scope bs = .error r) : Refuses bs r := by
  unfold Progress.argument at h
  split at h
  · exact word_refuses h
  · split at h
    · cases h
    · exact long_refuses h
    · exact short_refuses h
    · exact word_refuses h

lemma Flagged.dash (h : Flagged f bs) : ∃ rest, bs = 0x2D :: rest := by
  rcases h with rfl | ⟨rest, rfl⟩
  · cases f <;> exact ⟨_, rfl⟩
  · cases f <;> exact ⟨_, rfl⟩

/-- A flag is known at every level. -/
lemma argument_flagged (hopen : p.escaped = false) (h : Flagged f bs) :
    p.argument scope bs = p.request scope f := by
  unfold Progress.argument
  rw [hopen]
  rcases h with rfl | ⟨rest, rfl⟩
  · cases f <;> cases scope <;> rfl
  · cases f <;> cases scope <;> rfl

lemma escaped_of_word (h : p.word scope bs = .ok q) : q.escaped = p.escaped := by
  unfold Progress.word at h
  split at h
  · cases h
    rfl
  · split at h
    · obtain ⟨p', hawait, rfl⟩ := map_eq_ok_iff.1 h
      obtain ⟨u, -, rfl⟩ := await_eq_ok_iff.1 hawait
      rfl
    · cases h

lemma escaped_of_switch {s : Switch} {value? : Option (List UInt8)}
    (h : p.switch scope s value? = .ok q) : q.escaped = p.escaped := by
  unfold Progress.switch at h
  split at h
  · obtain ⟨u, -, v, -, rfl⟩ := attach_eq_ok_iff.1 h
    rfl
  · obtain ⟨u, -, rfl⟩ := await_eq_ok_iff.1 h
    rfl
  · cases h
  · exact absurd h request_ne_ok

lemma escaped_of_long {name : List UInt8} {value? : Option (List UInt8)}
    (h : p.long scope name value? = .ok q) : q.escaped = p.escaped := by
  unfold Progress.long at h
  split at h
  · exact escaped_of_switch h
  · cases h

lemma escaped_of_short (h : p.short scope bs = .ok q) : q.escaped = p.escaped := by
  cases bs with
  | nil =>
    cases h
    rfl
  | cons b bs =>
    rw [Progress.short] at h
    split at h
    · cases h
    · split at h
      · cases h
      · exact escaped_of_switch h
      · exact absurd h request_ne_ok

/-- Just two dashes end the options. -/
lemma escaped_of_argument (hne : bs ≠ bytes "--") (h : p.argument scope bs = .ok q) :
    q.escaped = p.escaped := by
  unfold Progress.argument at h
  split at h
  · exact escaped_of_word h
  · split at h
    · exact absurd rfl hne
    · exact escaped_of_long h
    · exact escaped_of_short h
    · exact escaped_of_word h

lemma open_of_argument_top (h : p.argument .top bs = .ok q) : p.escaped = false := by
  by_contra hescaped
  have hescaped : p.escaped = true := by simpa using hescaped
  have hwait : p.waiting? = none := by
    unfold Progress.waiting?
    rw [hescaped]
  rw [argument_escaped hescaped] at h
  obtain ⟨htakes, -⟩ := (word_eq_ok_iff hwait).1 h
  cases htakes

lemma not_flagged_of_argument_top (h : p.argument .top bs = .ok q) : ¬Flagged f bs := by
  intro hflag
  rw [argument_flagged (open_of_argument_top h) hflag] at h
  exact request_ne_ok h

end Words

/-! ### After the command -/

section Levels

variable {p q : Progress} {scope : Scope} {f : Flag} {w : List UInt8} {ws : List (List UInt8)}
  {r : Rejection} {v : Values}

lemma exists_word_of_error
    (h : ws.foldlM (fun p bs => Progress.argument p scope bs) p = .error r) :
    ∃ w ∈ ws, Refuses w r := by
  induction ws generalizing p with
  | nil => cases h
  | cons w ws ih =>
    rw [List.foldlM_cons] at h
    obtain h | ⟨q, -, h⟩ := bind_eq_error_iff.1 h
    · exact ⟨w, List.mem_cons_self, argument_refuses h⟩
    · obtain ⟨w', hw', hrefuses⟩ := ih h
      exact ⟨w', List.mem_cons_of_mem w hw', hrefuses⟩

lemma escaped_of_words (hdash : bytes "--" ∉ ws)
    (h : ws.foldlM (fun p bs => Progress.argument p scope bs) p = .ok q) : q.escaped = p.escaped := by
  induction ws generalizing p with
  | nil =>
    cases h
    rfl
  | cons w ws ih =>
    rw [List.mem_cons, not_or] at hdash
    rw [List.foldlM_cons] at h
    obtain ⟨p', hp', h⟩ := bind_eq_ok_iff.1 h
    exact (ih hdash.2 h).trans (escaped_of_argument (Ne.symm hdash.1) hp')

lemma concern_of_command (h : v.command scope = .error r) : concern r = .line := by
  unfold Values.command at h
  split at h
  · cases h
    rfl
  · cases h
  · split at h <;> cases h <;> rfl
  · split at h <;> cases h
    rfl

/-- A level ends at one of its words, at the value read last, or for what is missing. -/
lemma commandOf_error (h : commandOf scope ws = .error r) :
    ws.foldlM (fun p bs => Progress.argument p scope bs) {} = .error r ∨ concern r = .value ∨
      concern r = .line ∧ ∃ p v, ws.foldlM (fun p bs => Progress.argument p scope bs) {} = .ok p ∧
        p.settle = .ok v := by
  obtain h | ⟨p, hp, h⟩ := bind_eq_error_iff.1 h
  · exact .inl h
  · obtain h | ⟨v, hv, h⟩ := bind_eq_error_iff.1 h
    · exact .inr (.inl (concern_of_settle h))
    · obtain h | ⟨c, -, h⟩ := bind_eq_error_iff.1 h
      · exact .inr (.inr ⟨concern_of_command h, p, v, hp, hv⟩)
      · cases h

lemma commandOf_append (hr : concern r = .word) (h : commandOf scope ws = .error r)
    (more : List (List UInt8)) : commandOf scope (ws ++ more) = .error r := by
  rcases commandOf_error h with hread | hvalue | ⟨hline, -⟩
  · unfold commandOf
    rw [List.foldlM_append, hread]
    rfl
  · rw [hvalue] at hr
    cases hr
  · rw [hline] at hr
    cases hr

/-- A word that is refused ends its level. -/
lemma commandOf_of_refused (hp : ws.foldlM (fun p bs => Progress.argument p scope bs) {} = .ok p)
    (hw : p.argument scope w = .error r) (more : List (List UInt8)) :
    commandOf scope (ws ++ w :: more) = .error r := by
  unfold commandOf
  rw [List.foldlM_append, hp]
  change (p.argument scope w >>= _) >>= _ = _
  rw [hw]
  rfl

/-- A flag is answered before it is seen what else is missing. -/
lemma commandOf_flagged (hr : concern r = .line) (h : commandOf scope ws = .error r)
    (hdash : bytes "--" ∉ ws) (hflag : Flagged f w) (more : List (List UInt8)) :
    commandOf scope (ws ++ w :: more) = .error (requestOf scope f) := by
  rcases commandOf_error h with hread | hvalue | ⟨-, p, v, hp, hv⟩
  · obtain ⟨w, -, hrefuses⟩ := exists_word_of_error hread
    exact absurd hr hrefuses.1
  · rw [hvalue] at hr
    cases hr
  · have hopen : p.escaped = false := escaped_of_words hdash hp
    refine commandOf_of_refused hp ?_ more
    rw [argument_flagged hopen hflag, request_of_settle hv]

end Levels

/-! ### Before the command -/

section Lines

variable {p q : Progress} {scope : Scope} {f : Flag} {w : List UInt8} {ws : List (List UInt8)}
  {r : Rejection} {page : Page}

/-- A flag opens nothing. -/
lemma opening?_of_flagged (h : Flagged f w) : Opening.ofBytes? w = none := by
  obtain ⟨rest, rfl⟩ := h.dash
  cases htext : text? (0x2D :: rest) with
  | none =>
    unfold Opening.ofBytes?
    rw [htext]
    rfl
  | some n =>
    have hbytes := text?_eq_some_iff.1 htext
    rw [hbytes]
    exact opening?_of_dash (startsWith_of_bytes rest hbytes.symm)

lemma ofBytes?_of_opening? {opening : Opening} (h : p.opening? w = some opening) :
    Opening.ofBytes? w = some opening := by
  unfold Progress.opening? at h
  split at h
  · cases h
  · exact h

lemma opening?_eq_none (h : Opening.ofBytes? w = none) : p.opening? w = none := by
  unfold Progress.opening?
  split
  · rfl
  · exact h

lemma bytes_of_help (h : Opening.ofBytes? w = some .help) : bytes helpName = w := by
  obtain ⟨n, hn, hopening⟩ := Option.bind_eq_some_iff.1 h
  split at hopening
  · next hname =>
    rw [text?_eq_some_iff.1 hn, hname]
  · cases hname : Scope.ofName? n <;> rw [hname] at hopening <;> cases hopening

/-- The page that explains what a name opens. -/
def pageOf : Opening → Page
  | .command scope => .scope scope
  | .help => .help

lemma helpOf_cons : helpOf (w :: ws) = match Opening.ofBytes? w, ws with
    | none, _ => .unknownCommand (lossy w)
    | some opening, [] => .helpRequested (pageOf opening)
    | some _, next :: _ => .unknownCommand (lossy next) := by
  have hpage : ((text? w).bind fun n =>
      if n = helpName then some Page.help else (Scope.ofName? n).map .scope) =
      (Opening.ofBytes? w).map pageOf := by
    unfold Opening.ofBytes?
    rw [Option.map_bind]
    congr
    funext n
    by_cases hn : n = helpName
    · simp [hn, pageOf]
    · simp [hn, Function.comp_def, pageOf]
  unfold helpOf
  dsimp only
  rw [hpage]
  cases Opening.ofBytes? w <;> cases ws <;> rfl

lemma concern_helpOf : concern (helpOf ws) = .word := by
  cases ws with
  | nil => rfl
  | cons w ws =>
    rw [helpOf_cons]
    split <;> rfl

/-- The command for help gets no flag where it answers with a page. -/
lemma not_flagged_of_helpOf (h : helpOf ws = .helpRequested page) : ∀ w ∈ ws, ¬Flagged f w := by
  cases ws with
  | nil => exact nofun
  | cons w ws =>
    rw [helpOf_cons] at h
    split at h
    · cases h
    · next opening hopening =>
      intro w' hw' hflag
      rw [List.mem_singleton.1 hw'] at hflag
      rw [opening?_of_flagged hflag] at hopening
      cases hopening
    · cases h

lemma helpOf_append (h : ∀ page, helpOf ws ≠ .helpRequested page) (more : List (List UInt8)) :
    helpOf (ws ++ more) = helpOf ws := by
  cases ws with
  | nil => exact absurd rfl (h _)
  | cons w ws =>
    rw [List.cons_append, helpOf_cons, helpOf_cons]
    rw [helpOf_cons] at h
    cases hopening : Opening.ofBytes? w with
    | none => rfl
    | some opening =>
      cases ws with
      | nil =>
        rw [hopening] at h
        exact absurd rfl (h _)
      | cons next ws => rfl

/-- A line is refused for its first word, for the words after that, for the page that is asked for, or
as the words of a command. -/
lemma scanFrom_cons_error (h : scanFrom p (w :: ws) = .error r) :
    (p.opening? w = none ∧ (p.argument .top w = .error r ∨
      ∃ q, p.argument .top w = .ok q ∧ scanFrom q ws = .error r)) ∨
    (p.opening? w = some .help ∧ r = helpOf ws) ∨
    ∃ scope, p.opening? w = some (.command scope) ∧
      (commandOf scope ws = .error r ∨ concern r = .value) := by
  cases hopening : p.opening? w with
  | none =>
    rw [scanFrom_item hopening] at h
    exact .inl ⟨rfl, bind_eq_error_iff.1 h⟩
  | some opening =>
    cases opening with
    | help =>
      rw [scanFrom_help hopening] at h
      exact .inr (.inl ⟨rfl, (Except.error.inj h).symm⟩)
    | command scope =>
      refine .inr (.inr ⟨scope, rfl, ?_⟩)
      rw [scanFrom_command hopening] at h
      obtain h | ⟨inner, -, h⟩ := bind_eq_error_iff.1 h
      · exact .inl h
      · obtain h | ⟨v, -, h⟩ := bind_eq_error_iff.1 h
        · exact .inr (concern_of_settle h)
        · cases h

/-- What is wrong with a word is wrong with it whatever follows, unless the command for help was
called. -/
lemma scanFrom_append (hr : concern r = .word)
    (hhelp : ∀ page, r = .helpRequested page → ∃ w ∈ ws, Flagged .help w)
    (h : scanFrom p ws = .error r) (more : List (List UInt8)) :
    scanFrom p (ws ++ more) = .error r := by
  induction ws generalizing p with
  | nil =>
    obtain h | ⟨v, -, h⟩ := bind_eq_error_iff.1 h
    · rw [concern_of_settle h] at hr
      cases hr
    · cases h
      split at hr <;> cases hr
  | cons w ws ih =>
    rw [List.cons_append]
    rcases scanFrom_cons_error h with ⟨hopening, hargument | ⟨q, hargument, h⟩⟩ | ⟨hopening, rfl⟩ |
      ⟨scope, hopening, h | hvalue⟩
    · rw [scanFrom_item hopening, hargument]
      rfl
    · rw [scanFrom_item hopening, hargument]
      refine ih ?_ h
      intro page hpage
      obtain ⟨w', hw', hflag⟩ := hhelp page hpage
      rcases List.mem_cons.1 hw' with rfl | hw'
      · exact absurd hflag (not_flagged_of_argument_top hargument)
      · exact ⟨w', hw', hflag⟩
    · rw [scanFrom_help hopening]
      refine congrArg Except.error (helpOf_append ?_ more)
      intro page hpage
      obtain ⟨w', hw', hflag⟩ := hhelp page hpage
      rcases List.mem_cons.1 hw' with rfl | hw'
      · have hnone := opening?_of_flagged hflag
        rw [ofBytes?_of_opening? hopening] at hnone
        cases hnone
      · exact not_flagged_of_helpOf hpage w' hw' hflag
    · rw [scanFrom_command hopening]
      exact bind_eq_error_iff.2 (.inl (commandOf_append hr h more))
    · rw [hvalue] at hr
      cases hr

/-- A flag is answered before it is seen that the line ends too early. -/
lemma scanFrom_flagged (hr : concern r = .line) (hopen : p.escaped = false)
    (hdash : bytes "--" ∉ ws) (h : scanFrom p ws = .error r) (hflag : Flagged f w)
    (more : List (List UInt8)) :
    ∃ scope, scanFrom p (ws ++ w :: more) = .error (requestOf scope f) := by
  induction ws generalizing p with
  | nil =>
    obtain h | ⟨v, hv, -⟩ := bind_eq_error_iff.1 h
    · rw [concern_of_settle h] at hr
      cases hr
    · refine ⟨.top, ?_⟩
      rw [List.nil_append, scanFrom_item (opening?_eq_none (opening?_of_flagged hflag)),
        argument_flagged hopen hflag, request_of_settle hv]
      rfl
  | cons w' ws ih =>
    rw [List.mem_cons, not_or] at hdash
    rw [List.cons_append]
    rcases scanFrom_cons_error h with ⟨hopening, hargument | ⟨q, hargument, h⟩⟩ | ⟨hopening, rfl⟩ |
      ⟨scope, hopening, h | hvalue⟩
    · exact absurd hr (argument_refuses hargument).1
    · rw [scanFrom_item hopening, hargument]
      exact ih ((escaped_of_argument (Ne.symm hdash.1) hargument).trans hopen) hdash.2 h
    · rw [concern_helpOf] at hr
      cases hr
    · rw [scanFrom_command hopening]
      exact ⟨scope, bind_eq_error_iff.2 (.inl (commandOf_flagged hr h hdash.2 hflag more))⟩
    · rw [hvalue] at hr
      cases hr

/-- A page is asked for by a flag, or by the name of the command for help. -/
lemma scanFrom_page (h : scanFrom p ws = .error (.helpRequested page)) :
    (∃ w ∈ ws, Flagged .help w) ∨ bytes helpName ∈ ws := by
  induction ws generalizing p with
  | nil =>
    obtain h | ⟨v, -, h⟩ := bind_eq_error_iff.1 h
    · cases concern_of_settle h
    · have hend := Except.error.inj h
      split at hend <;> cases hend
  | cons w ws ih =>
    rcases scanFrom_cons_error h with ⟨-, hargument | ⟨q, -, h⟩⟩ | ⟨hopening, -⟩ |
      ⟨scope, -, h | hvalue⟩
    · exact .inl ⟨w, List.mem_cons_self, (argument_refuses hargument).2 page rfl⟩
    · rcases ih h with ⟨w', hw', hflag⟩ | hname
      · exact .inl ⟨w', List.mem_cons_of_mem w hw', hflag⟩
      · exact .inr (List.mem_cons_of_mem w hname)
    · right
      rw [bytes_of_help (ofBytes?_of_opening? hopening)]
      exact List.mem_cons_self
    · left
      rcases commandOf_error h with hread | hvalue | ⟨hline, -⟩
      · obtain ⟨w', hw', hrefuses⟩ := exists_word_of_error hread
        exact ⟨w', List.mem_cons_of_mem w hw', hrefuses.2 page rfl⟩
      · cases hvalue
      · cases hline
    · cases hvalue

end Lines

/-- An answer to one word of a command line is the answer to every longer line: an unknown argument or
command, a value for a flag, and a flag itself. The run ends with the same code, and what it says is the
same up to the advice behind the first paragraph, for which all words may count. A page that no flag asks
for was asked for by the command for help. And where nothing is wrong but that the line ends too early, a
flag that follows is answered. -/
theorem parse_answer_lasts (args : List (List UInt8)) :
    (∀ r, parse args = .error r → concern r = .word →
      (∀ page, r = .helpRequested page → ∃ w ∈ args.tail, Flagged .help w) →
      ∀ more, parse (args ++ more) = .error r ∧
        r.message (calledAs? (args ++ more)) = r.message (calledAs? args) ∧
        ∀ net m advice, Program.run net (args ++ more) m advice =
          (.ended (Program.reject (advice (args ++ more) r) (calledAs? args) r), m)) ∧
    (∀ page, parse args = .error (.helpRequested page) →
      (∃ w ∈ args.tail, Flagged .help w) ∨ bytes helpName ∈ args.tail) ∧
    ∀ r, parse args = .error r → concern r = .line → args ≠ [] → bytes "--" ∉ args.tail →
      ∀ f w more, Flagged f w → ∃ scope, parse (args ++ w :: more) = .error (requestOf scope f) := by
  refine ⟨?_, fun page h => scanFrom_page h, ?_⟩
  · intro r h hr hhelp more
    cases args with
    | nil =>
      cases h
      cases hr
    | cons program ws =>
      have hlast : parse (program :: ws ++ more) = .error r := scanFrom_append hr hhelp h more
      have hname : calledAs? (program :: ws ++ more) = calledAs? (program :: ws) := rfl
      refine ⟨hlast, by rw [hname], ?_⟩
      intro net m advice
      rw [Program.run, hlast, hname]
  · intro r h hr hne hdash f w more hflag
    obtain ⟨program, ws, rfl⟩ := List.exists_cons_of_ne_nil hne
    exact scanFrom_flagged hr rfl hdash h hflag more

/-- An unknown argument wins over the value before it, which is no port, and over a flag behind it. -/
example : parse (["member-rpc", "version", "-p", "x", "-z", "-h"].map bytes) =
    .error (.unknownArgument "-z") := by rfl

end MemberRelay.Proofs
