import MemberRelay.Proofs.Arguments.Level

/-!
# Reading the command line

The reading of a command line accepts what the grammar says and nothing else.
-/

namespace MemberRelay.Proofs
open Arguments Utf8

/-! ### After the command -/

section Commands

variable {scope : Scope} {ws : List String}

/-- The reading of a level, and the command of its values. -/
lemma commandOf_eq_ok_iff_finish {i : Invocation} : commandOf scope (ws.map bytes) = .ok i ↔
    ∃ v, finish scope (fresh {} false false) ws = .ok v ∧ v.command scope = .ok i.command ∧
      i.directory? = v.directory? := by
  constructor
  · intro h
    obtain ⟨p, hp, h⟩ := bind_eq_ok_iff.1 h
    obtain ⟨v, hv, h⟩ := bind_eq_ok_iff.1 h
    obtain ⟨c, hc, h⟩ := bind_eq_ok_iff.1 h
    cases h
    exact ⟨v, bind_eq_ok_iff.2 ⟨p, hp, hv⟩, hc, rfl⟩
  · rintro ⟨v, hv, hc, hdirectory⟩
    obtain ⟨p, hp, hv⟩ := bind_eq_ok_iff.1 hv
    obtain ⟨directory?, c⟩ := i
    dsimp only at hc hdirectory
    rw [hdirectory]
    exact bind_eq_ok_iff.2 ⟨p, hp, bind_eq_ok_iff.2 ⟨v, hv, bind_eq_ok_iff.2 ⟨c, hc, rfl⟩⟩⟩

/-- The words after the name of a command are read as the grammar says. -/
theorem commandOf_eq_ok_iff (hscope : scope ≠ .top) {i : Invocation} :
    commandOf scope (ws.map bytes) = .ok i ↔
      ∃ items, Written items ws ∧ Permitted scope items ∧ Means items scope i.command ∧
        i.directory? = (valuesOf .directory items).head? := by
  have hseen : Seen false [] := by simp [Seen, positionals]
  rw [commandOf_eq_ok_iff_finish]
  constructor
  · rintro ⟨v, hv, hc, hdirectory⟩
    obtain ⟨items, hwritten, hbelongs, hagrees⟩ := (finish_eq_ok_iff .nil hseen).1 hv
    rw [List.nil_append] at hagrees
    refine ⟨items, hwritten, hagrees.permitted hbelongs, ?_, ?_⟩
    · exact (command_eq_ok_iff hscope hagrees hbelongs).1 hc
    · rw [hdirectory, hagrees.head?_directory]
  · rintro ⟨items, hwritten, hpermitted, hmeans, hdirectory⟩
    have hbelongs := hmeans.belongs hpermitted
    obtain ⟨v, hagrees⟩ := hmeans.exists_agrees hpermitted
    refine ⟨v, ?_, ?_, ?_⟩
    · exact (finish_eq_ok_iff .nil hseen).2 ⟨items, hwritten, hbelongs, hagrees⟩
    · exact (command_eq_ok_iff hscope hagrees hbelongs).2 hmeans
    · rw [hdirectory, hagrees.head?_directory]

end Commands

/-! ### One word before the command -/

section Steps

variable {p : Progress} {bs : List UInt8} {bss : List (List UInt8)} {scope : Scope}

lemma scanFrom_item (hopening : p.opening? bs = none) :
    scanFrom p (bs :: bss) = p.argument .top bs >>= fun q => scanFrom q bss := by
  rw [scanFrom, hopening]
  cases p.argument .top bs <;> rfl

lemma scanFrom_help (hopening : p.opening? bs = some .help) :
    scanFrom p (bs :: bss) = .error (helpOf bss) := by
  rw [scanFrom, hopening]

lemma scanFrom_command (hopening : p.opening? bs = some (.command scope)) :
    scanFrom p (bs :: bss) = commandOf scope bss >>= fun inner =>
      p.settle >>= fun v => .ok ⟨inner.directory? <|> v.directory?, inner.command⟩ := by
  rw [scanFrom, hopening]
  rfl

end Steps

/-! ### The whole line -/

section Lines

variable {p p' : Progress} {u : Values} {w s name : String} {ws front : List String} {i : Invocation}
  {scope : Scope}

/-- The reading before the name of a command. -/
def scan (p : Progress) (ws : List String) : Except Rejection Invocation := scanFrom p (ws.map bytes)

lemma ofName?_eq_some_iff : Scope.ofName? name = some scope ↔ scope.name? = some name := by
  constructor
  · intro h
    have hmatch := List.find?_some h
    exact of_decide_eq_true hmatch
  · intro h
    cases scope <;> cases h <;> rfl

lemma opening?_bytes : Opening.ofBytes? (bytes w) =
    if w = helpName then some .help else (Scope.ofName? w).map .command := by
  unfold Opening.ofBytes?
  rw [text?_bytes]
  rfl

/-- What starts with a dash opens nothing. -/
lemma opening?_of_dash (h : StartsWith "-" w) : Opening.ofBytes? (bytes w) = none := by
  obtain ⟨r, rfl⟩ := h
  have hne : ∀ n : String, n.toList.head? ≠ some '-' → "-" ++ r ≠ n := by
    rintro _ hn rfl
    rw [String.toList_append] at hn
    exact hn rfl
  have hname : Scope.ofName? ("-" ++ r) = none := by
    cases hfind : Scope.ofName? ("-" ++ r) with
    | none => rfl
    | some scope =>
      have hscope := ofName?_eq_some_iff.1 hfind
      exfalso
      cases scope with
      | top => cases hscope
      | _ => exact hne _ (by decide) (Option.some.inj hscope).symm
  rw [opening?_bytes, if_neg (hne helpName (by decide)), hname]
  rfl

lemma scan_nil : scan p [] ≠ .ok i := by
  intro h
  obtain ⟨v, -, h⟩ := bind_eq_ok_iff.1 h
  cases h

/-- The name of a command, where one can stand. -/
lemma opening?_name (hopen : p.escaped = false) (hwait : p.waiting? = none)
    (hname : scope.name? = some name) : p.opening? (bytes name) = some (.command scope) := by
  have hhelp : name ≠ helpName := by
    rintro rfl
    cases scope <;> simp [Scope.name?, helpName] at hname
  unfold Progress.opening?
  rw [hopen, hwait, opening?_bytes, if_neg hhelp, ofName?_eq_some_iff.2 hname]
  rfl

lemma name_of_opening? (h : p.opening? (bytes w) = some (.command scope)) :
    scope.name? = some w := by
  unfold Progress.opening? at h
  split at h
  · cases h
  · rw [opening?_bytes] at h
    split at h
    · cases h
    · obtain ⟨scope', hscope, heq⟩ := Option.map_eq_some_iff.1 h
      cases heq
      exact ofName?_eq_some_iff.1 hscope

lemma opening?_settled (hwait : p.waiting? = none) :
    (settled p u).opening? (bytes w) = p.opening? (bytes w) := by
  unfold Progress.opening?
  rw [hwait, waiting?_of_settle settle_settled]
  rfl

/-- A word that opens a command. -/
lemma scan_command (hopening : p.opening? (bytes w) = some (.command scope)) :
    scan p (w :: ws) = .ok i ↔ ∃ v, p.settle = .ok v ∧ ∃ inner,
      commandOf scope (ws.map bytes) = .ok inner ∧
        (⟨inner.directory? <|> v.directory?, inner.command⟩ : Invocation) = i := by
  rw [scan, List.map_cons, scanFrom_command hopening, bind_eq_ok_iff]
  constructor
  · rintro ⟨inner, hinner, h⟩
    obtain ⟨v, hv, h⟩ := bind_eq_ok_iff.1 h
    exact ⟨v, hv, inner, hinner, Except.ok.inj h⟩
  · rintro ⟨v, hv, inner, hinner, rfl⟩
    exact ⟨inner, hinner, bind_eq_ok_iff.2 ⟨v, hv, rfl⟩⟩

lemma scan_help (hopening : p.opening? (bytes w) = some .help) : scan p (w :: ws) ≠ .ok i := by
  rw [scan, List.map_cons, scanFrom_help hopening]
  nofun

/-- A word that opens nothing. -/
lemma scan_cons (hopening : p.opening? (bytes w) = none) : scan p (w :: ws) = .ok i ↔
    ∃ p', p.argument .top (bytes w) = .ok p' ∧ scan p' ws = .ok i := by
  rw [scan, List.map_cons, scanFrom_item hopening, bind_eq_ok_iff]
  rfl

/-- A line ends well exactly if it does with the last value looked at first. -/
lemma scan_settled (hwait : p.waiting? = none) : scan p ws = .ok i ↔
    ∃ u, p.settle = .ok u ∧ scan (settled p u) ws = .ok i := by
  induction ws generalizing p with
  | nil =>
    constructor
    · exact fun h => absurd h scan_nil
    · rintro ⟨u, -, h⟩
      exact absurd h scan_nil
  | cons w ws ih =>
    have hsettled := fun u => opening?_settled (u := u) (w := w) hwait
    cases hopening : p.opening? (bytes w) with
    | none =>
      rw [scan_cons hopening, argument_step (K := fun p => scan p ws = .ok i) hwait]
      · refine exists_congr fun u => and_congr_right fun _ => ?_
        exact (scan_cons ((hsettled u).trans hopening)).symm
      · exact ih (p := { p with escaped := true }) rfl
    | some opening =>
      cases opening with
      | help =>
        constructor
        · exact fun h => absurd h (scan_help hopening)
        · rintro ⟨u, -, h⟩
          exact absurd h (scan_help ((hsettled u).trans hopening))
      | command scope =>
        rw [scan_command hopening]
        refine exists_congr fun u => and_congr_right fun _ => ?_
        rw [scan_command ((hsettled u).trans hopening), settle_settled]
        simp

/-- Two dashes before the command leave no way to one. -/
lemma scan_escaped (hescaped : p.escaped = true) : scan p ws ≠ .ok i := by
  intro h
  cases ws with
  | nil => exact scan_nil h
  | cons w ws =>
    have hopening : p.opening? (bytes w) = none := by
      unfold Progress.opening?
      rw [hescaped]
      rfl
    have hwait : p.waiting? = none := by
      unfold Progress.waiting?
      rw [hescaped]
    obtain ⟨p', hp', -⟩ := (scan_cons hopening).1 h
    rw [argument_escaped hescaped] at hp'
    obtain ⟨htakes, -⟩ := (word_eq_ok_iff hwait).1 hp'
    cases htakes

/-- The option before the command waits for its value and keeps it for later. -/
lemma argument_front (hnamed : Named .directory w) (hs : StandsApart s) :
    let waiting : Progress := { fresh u false false with pending? := some (.waiting .directory) }
    (fresh u false false).argument .top (bytes w) = .ok waiting ∧
      waiting.argument .top (bytes s) =
        .ok { fresh u false false with pending? := some (.given (.option .directory) (bytes s)) } := by
  refine ⟨argument_named rfl (by decide) hnamed, ?_⟩
  rw [argument_apart rfl hs, word_waiting rfl rfl]

/-- The option before the command. -/
lemma scan_front (hfront : Front (some s) front) :
    scan (fresh u false false) (front ++ ws) = .ok i ↔
      ∃ u', u.put (.option .directory) (bytes s) = .ok u' ∧
        scan (fresh u' false false) ws = .ok i := by
  have hopening : ∀ w, StartsWith "-" w → (fresh u false false).opening? (bytes w) = none :=
    fun w hw => opening?_of_dash hw
  cases hfront with
  | attached hattached =>
    rw [List.singleton_append, scan_cons (hopening _ hattached.dash),
      argument_attached rfl (by decide) hattached]
    constructor
    · rintro ⟨p', hp', h⟩
      obtain ⟨_, hu, u', hu', rfl⟩ := attach_eq_ok_iff.1 hp'
      cases hu
      exact ⟨u', hu', h⟩
    · rintro ⟨u', hu', h⟩
      exact ⟨_, attach_eq_ok_iff.2 ⟨u, rfl, u', hu', rfl⟩, h⟩
  | @apart _ w hnamed hs =>
    obtain ⟨hawait, hgiven⟩ := argument_front (u := u) hnamed hs
    have hline : [w, s] ++ ws = w :: s :: ws := rfl
    rw [hline, scan_cons (hopening w hnamed.dash), hawait]
    simp only [Except.ok.injEq, exists_eq_left']
    rw [scan_cons rfl, hgiven]
    simp only [Except.ok.injEq, exists_eq_left']
    exact scan_settled rfl

/-- A line goes on with the name of a command or with the option before it. -/
lemma scan_cases (h : scan (fresh u false false) ws = .ok i) :
    (∃ name scope rest, ws = name :: rest ∧ Scope.name? scope = some name) ∨
      ∃ s front rest, Front (some s) front ∧ ws = front ++ rest := by
  cases ws with
  | nil => exact absurd h scan_nil
  | cons w ws =>
    cases hopening : (fresh u false false).opening? (bytes w) with
    | some opening =>
      cases opening with
      | help => exact absurd h (scan_help hopening)
      | command scope => exact .inl ⟨w, scope, ws, rfl, name_of_opening? hopening⟩
    | none =>
      right
      obtain ⟨p', hp', hrest⟩ := (scan_cons hopening).1 h
      have htop : ∀ o ∈ Scope.top.valueOptions, o = .directory := by decide
      rcases argument_ok rfl hp' with rfl | ⟨o, ho, hnamed | ⟨s, hattached⟩⟩ | hapart
      · rw [argument_dashes rfl] at hp'
        cases hp'
        exact absurd hrest (scan_escaped rfl)
      · cases htop o ho
        rw [argument_named rfl ho hnamed] at hp'
        obtain ⟨_, -, rfl⟩ := await_eq_ok_iff.1 hp'
        cases ws with
        | nil => exact absurd hrest scan_nil
        | cons s rest =>
          obtain ⟨p', hp', hrest⟩ := (scan_cons rfl).1 hrest
          rcases apart_of_waiting rfl rfl hp' with rfl | hs
          · rw [argument_dashes rfl] at hp'
            cases hp'
            exact absurd hrest (scan_escaped rfl)
          · exact ⟨s, [w, s], rest, .apart hnamed hs, rfl⟩
      · cases htop o ho
        exact ⟨s, [w], ws, .attached hattached, rfl⟩
      · rw [argument_apart rfl hapart] at hp'
        obtain ⟨htakes, -⟩ := (word_eq_ok_iff rfl).1 hp'
        cases htakes

/-- The name of a command and the words after it, where the directory in front is known. -/
lemma scan_name (hname : scope.name? = some name) :
    scan (fresh u false false) (name :: ws) = .ok i ↔
      ∃ items command, Written items ws ∧ Permitted scope items ∧ Means items scope command ∧
        i = ⟨(valuesOf .directory items).head? <|> u.directory?, command⟩ := by
  have hscope : scope ≠ .top := by
    rintro rfl
    cases hname
  rw [scan_command (opening?_name rfl rfl hname)]
  constructor
  · rintro ⟨_, hu, inner, hinner, rfl⟩
    cases hu
    obtain ⟨items, hwritten, hpermitted, hmeans, hdirectory⟩ := (commandOf_eq_ok_iff hscope).1 hinner
    exact ⟨items, inner.command, hwritten, hpermitted, hmeans, by rw [hdirectory]; rfl⟩
  · rintro ⟨items, command, hwritten, hpermitted, hmeans, rfl⟩
    refine ⟨u, rfl, ⟨(valuesOf .directory items).head?, command⟩, ?_, rfl⟩
    exact (commandOf_eq_ok_iff hscope).2 ⟨items, hwritten, hpermitted, hmeans, rfl⟩

end Lines

/-- A command line is read exactly if it is an instance of the grammar, and then as the invocation
that it denotes. -/
theorem parse_eq_ok_iff_denotes (ws : List String) (i : Invocation) :
    parse (ws.map bytes) = .ok i ↔ Denotes ws i := by
  have hput : ∀ s u', (({} : Values).put (.option .directory) (bytes s) = .ok u' ↔
      u' = { directory? := some s }) := by
    intro s u'
    rw [put_bytes]
    exact ⟨fun h => (Except.ok.inj h).symm, fun h => by rw [h]; rfl⟩
  constructor
  · intro h
    cases ws with
    | nil => exact absurd h scan_nil
    | cons program ws =>
      have hscan : scan (fresh {} false false) ws = .ok i := h
      rcases scan_cases hscan with ⟨name, scope, rest, rfl, hname⟩ | ⟨s, front, rest, hfront, rfl⟩
      · obtain ⟨items, command, hwritten, hpermitted, hmeans, rfl⟩ := (scan_name hname).1 hscan
        exact .line .none hname hwritten hpermitted hmeans
      · obtain ⟨u', hu', hscan⟩ := (scan_front hfront).1 hscan
        rw [hput] at hu'
        subst hu'
        rcases scan_cases hscan with ⟨name, scope, rest, rfl, hname⟩ | ⟨s', front', rest, hfront', rfl⟩
        · obtain ⟨items, command, hwritten, hpermitted, hmeans, rfl⟩ := (scan_name hname).1 hscan
          exact .line hfront hname hwritten hpermitted hmeans
        · obtain ⟨u', hu', -⟩ := (scan_front hfront').1 hscan
          rw [put_bytes] at hu'
          cases hu'
  · intro h
    cases h with
    | @line program front name rest scope items directory? command hfront hname hwritten hpermitted
        hmeans =>
      change scan (fresh {} false false) (front ++ name :: rest) = _
      cases directory? with
      | none =>
        cases hfront
        exact (scan_name hname).2 ⟨items, command, hwritten, hpermitted, hmeans, rfl⟩
      | some s =>
        refine (scan_front hfront).2 ⟨_, (hput s _).2 rfl, ?_⟩
        exact (scan_name hname).2 ⟨items, command, hwritten, hpermitted, hmeans, rfl⟩

example : parse (["member-rpc", "-dx", "send", "-a", "h", "--", "-p"].map bytes) =
    .ok ⟨some "x", .send "h" none "-p"⟩ := by
  rfl

end MemberRelay.Proofs
