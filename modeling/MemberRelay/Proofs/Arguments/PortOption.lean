import MemberRelay.Proofs.Arguments.Answers
import MemberRelay.Proofs.Arguments.PortNumber

/-!
# The port option

On a command line that is well-formed but for the value of its port, that value alone decides: it is a
port and the line is read, or it is none and the line is refused with the reason.
-/

namespace MemberRelay.Proofs
open Arguments Utf8

/-- The words before and after `--port=…` on a command line for a remote host, and the invocation that
they mean without it. The option stands where an item can begin, before any two dashes, and no other
item gives a port. -/
inductive AroundPort : List String → List String → Invocation → Prop where
  | line {program front name before after scope items items' directory? command}
      (hfront : Front directory? front) (hname : Scope.name? scope = some name)
      (hscope : scope = .send ∨ scope = .version) (hbefore : Written items before)
      (hopen : "--" ∉ before) (hafter : Written items' after)
      (hpermitted : Permitted scope (items ++ items')) (hmeans : Means (items ++ items') scope command)
      (hnone : valuesOf .port (items ++ items') = []) :
      AroundPort (program :: (front ++ name :: before)) after
        ⟨(valuesOf .directory (items ++ items')).head? <|> directory?, command⟩

/-- A command for a remote host with a port of its own. -/
def withPort (n : UInt16) : Command → Command
  | .serve => .serve
  | .send address _ payload => .send address (some n) payload
  | .version address _ => .version address (some n)

/-! ### One more item -/

section Items

variable {scope : Scope} {items items' : List Item} {ws ws' : List String} {v : String} {n : UInt16}
  {c : Command} {o : ValueOption}

lemma Written.append (h : Written items ws) (hopen : "--" ∉ ws) (h' : Written items' ws') :
    Written (items ++ items') (ws ++ ws') := by
  induction h with
  | nil => exact h'
  | dashes vs => exact absurd List.mem_cons_self hopen
  | attached hattached _ ih =>
    exact .attached hattached (ih (fun hmem => hopen (List.mem_cons_of_mem _ hmem)))
  | apart hnamed hv _ ih =>
    refine .apart hnamed hv (ih fun hmem => hopen ?_)
    exact List.mem_cons_of_mem _ (List.mem_cons_of_mem _ hmem)
  | positional hv _ ih =>
    exact .positional hv (ih (fun hmem => hopen (List.mem_cons_of_mem _ hmem)))

lemma valuesOf_insert (ho : o ≠ .port) :
    valuesOf o (items ++ .option .port v :: items') = valuesOf o (items ++ items') := by
  have hcons : valuesOf o (.option .port v :: items') = valuesOf o items' :=
    List.filterMap_cons_none (if_neg ho.symm)
  rw [valuesOf_append, valuesOf_append, hcons]

lemma valuesOf_insert_port (hnone : valuesOf .port (items ++ items') = []) :
    valuesOf .port (items ++ .option .port v :: items') = [v] := by
  have hcons : valuesOf .port (.option .port v :: items') = v :: valuesOf .port items' :=
    List.filterMap_cons_some (if_pos rfl)
  rw [valuesOf_append, List.append_eq_nil_iff] at hnone
  rw [valuesOf_append, hcons, hnone.1, hnone.2]
  rfl

lemma positionals_insert :
    positionals (items ++ .option .port v :: items') = positionals (items ++ items') := by
  rw [positionals_append, positionals_append]
  rfl

lemma Permitted.insert (h : Permitted scope (items ++ items'))
    (hnone : valuesOf .port (items ++ items') = []) (hport : .port ∈ scope.valueOptions) :
    Permitted scope (items ++ .option .port v :: items') := by
  refine ⟨?_, ?_⟩
  · intro o s hmem
    rw [List.mem_append, List.mem_cons] at hmem
    rcases hmem with hmem | hmem | hmem
    · exact h.belongs o s (List.mem_append_left _ hmem)
    · cases hmem
      exact hport
    · exact h.belongs o s (List.mem_append_right _ hmem)
  · intro o
    by_cases ho : o = .port
    · rw [ho, valuesOf_insert_port hnone]
      exact Nat.le_refl 1
    · rw [valuesOf_insert ho]
      exact h.once o

lemma Means.insert (h : Means (items ++ items') scope c)
    (hnone : valuesOf .port (items ++ items') = []) (hv : port v = .ok n) :
    Means (items ++ .option .port v :: items') scope (withPort n c) := by
  have hport : PortOf (items ++ .option .port v :: items') (some n) :=
    .some (valuesOf_insert_port hnone) hv
  cases h with
  | serve hpositionals => exact .serve (positionals_insert.trans hpositionals)
  | send haddress _ hpayload =>
    exact .send ((valuesOf_insert (by decide)).trans haddress) hport
      (positionals_insert.trans hpayload)
  | version haddress _ hpositionals =>
    exact .version ((valuesOf_insert (by decide)).trans haddress) hport
      (positionals_insert.trans hpositionals)

end Items

/-! ### The line -/

section Lines

variable {p q : Progress} {w v : String} {ws front before after : List String} {u : Values}
  {directory? : Option String} {e : PortError} {i : Invocation} {n : UInt16}

lemma scan_step (hopening : p.opening? (bytes w) = none)
    (hw : p.argument .top (bytes w) = .ok q) : scan p (w :: ws) = scan q ws := by
  rw [scan, List.map_cons, scanFrom_item hopening, hw]
  rfl

/-- The option before the command is read, whatever follows. -/
lemma scan_past_front (hfront : Front directory? front) :
    ∃ p : Progress, p.settle = .ok { directory? := directory? } ∧ p.escaped = false ∧
      ∀ ws, scan (fresh {} false false) (front ++ ws) = scan p ws := by
  cases hfront with
  | none => exact ⟨fresh {} false false, rfl, rfl, fun ws => rfl⟩
  | @attached s w hattached =>
    have hput : ({} : Values).put (.option .directory) (bytes s) = .ok { directory? := some s } :=
      put_bytes
    have hw : (fresh {} false false).argument .top (bytes w) =
        .ok (fresh { directory? := some s } false false) := by
      rw [argument_attached rfl (by decide) hattached]
      exact attach_eq_ok_iff.2 ⟨{}, rfl, _, hput, rfl⟩
    exact ⟨_, rfl, rfl, fun ws => scan_step (opening?_eq_none (opening?_of_dash hattached.dash)) hw⟩
  | @apart s w hnamed hs =>
    have hput : ({} : Values).put (.option .directory) (bytes s) = .ok { directory? := some s } :=
      put_bytes
    obtain ⟨hw, hgiven⟩ := argument_front (u := {}) hnamed hs
    refine ⟨{ fresh {} false false with pending? := some (.given (.option .directory) (bytes s)) },
      hput, rfl, fun ws => ?_⟩
    exact (scan_step (opening?_eq_none (opening?_of_dash hnamed.dash)) hw).trans
      (scan_step rfl hgiven)

lemma attach_port_error (hsettle : p.settle = .ok u) (hnone : u.port? = none)
    (hv : port v = .error e) : p.attach .port (bytes v) = .error (.invalidPort v e) := by
  have hput : u.put (.option .port) (bytes v) = .error (.invalidPort v e) := by
    rw [put_bytes]
    simp [Values.has, Values.assign, hnone, hv]
  exact bind_eq_error_iff.2 (.inr ⟨u, hsettle, bind_eq_error_iff.2 (.inl hput)⟩)

/-- The words before the option are read, and leave a place for a port. -/
lemma exists_words_read {scope : Scope} {items items' : List Item} {command : Command}
    (hbefore : Written items before) (hopen : "--" ∉ before)
    (hpermitted : Permitted scope (items ++ items')) (hmeans : Means (items ++ items') scope command)
    (hnone : valuesOf .port (items ++ items') = []) :
    ∃ p u, (before.map bytes).foldlM (fun p bs => Progress.argument p scope bs) {} = .ok p ∧
      p.settle = .ok u ∧ p.escaped = false ∧ u.port? = none := by
  obtain ⟨v, hagrees⟩ := hmeans.exists_agrees hpermitted
  obtain ⟨u, hu⟩ := hagrees.of_append
  have hbelongs : Belongs scope items := by
    have hall := hmeans.belongs hpermitted
    exact ⟨fun o s hmem => hall.option o s (List.mem_append_left _ hmem),
      fun s hmem => hall.positional s (List.mem_append_left _ hmem)⟩
  have hseen : Seen false [] := by simp [Seen, positionals]
  have hfinish : finish scope (fresh {} false false) before = .ok u :=
    (finish_eq_ok_iff .nil hseen).2 ⟨items, hbefore, hbelongs, hu⟩
  obtain ⟨p, hp, hsettle⟩ := bind_eq_ok_iff.1 hfinish
  have hdash : bytes "--" ∉ before.map bytes := by
    rw [List.mem_map]
    rintro ⟨w, hw, heq⟩
    exact hopen (bytes_injective heq ▸ hw)
  have hport := hu.port
  rw [valuesOf_append, List.append_eq_nil_iff] at hnone
  rw [hnone.1] at hport
  refine ⟨p, u, hp, hsettle, escaped_of_words hdash hp, ?_⟩
  cases hnumber : u.port? with
  | none => rfl
  | some n =>
    rw [hnumber] at hport
    cases hport

/-- The value of the port decides what becomes of the line. -/
lemma parse_around (h : AroundPort before after i) (v : String) :
    (∀ n, port v = .ok n → parse ((before ++ ("--port=" ++ v) :: after).map bytes) =
        .ok ⟨i.directory?, withPort n i.command⟩) ∧
      ∀ e, port v = .error e → parse ((before ++ ("--port=" ++ v) :: after).map bytes) =
        .error (.invalidPort v e) := by
  cases h with
  | @line program front name before after scope items items' directory? command hfront hname hscope
      hbefore hopen hafter hpermitted hmeans hnone =>
    have htop : scope ≠ .top := by
      rintro rfl
      cases hname
    have hport : .port ∈ scope.valueOptions := by
      rcases hscope with rfl | rfl <;> decide
    have hattached : Attached .port v ("--port=" ++ v) := .long
    obtain ⟨p, hsettle, hfrontOpen, hscan⟩ := scan_past_front hfront
    have hline : parse (((program :: (front ++ name :: before)) ++ ("--port=" ++ v) :: after).map
        bytes) = commandOf scope ((before ++ ("--port=" ++ v) :: after).map bytes) >>= fun inner =>
          .ok ⟨inner.directory? <|> directory?, inner.command⟩ := by
      have hopening := opening?_name hfrontOpen (waiting?_of_settle hsettle) hname
      have hname' := hscan (name :: (before ++ ("--port=" ++ v) :: after))
      rw [scan, scan, List.map_cons, scanFrom_command hopening, hsettle] at hname'
      rw [List.cons_append, List.append_assoc, List.cons_append]
      exact hname'
    constructor
    · intro n hn
      have hitems : Written (items ++ .option .port v :: items')
          (before ++ ("--port=" ++ v) :: after) := hbefore.append hopen (.attached hattached hafter)
      have hinner : commandOf scope ((before ++ ("--port=" ++ v) :: after).map bytes) =
          .ok ⟨(valuesOf .directory (items ++ items')).head?, withPort n command⟩ := by
        refine (commandOf_eq_ok_iff htop).2 ⟨_, hitems, hpermitted.insert hnone hport,
          hmeans.insert hnone hn, ?_⟩
        rw [valuesOf_insert (by decide)]
      rw [hline, hinner]
      rfl
    · intro e he
      obtain ⟨q, u, hq, hsettle', hopen', hnumber⟩ :=
        exists_words_read hbefore hopen hpermitted hmeans hnone
      have hword : q.argument scope (bytes ("--port=" ++ v)) = .error (.invalidPort v e) := by
        rw [argument_attached hopen' hport hattached]
        exact attach_port_error hsettle' hnumber he
      rw [hline]
      refine bind_eq_error_iff.2 (.inl ?_)
      rw [List.map_append, List.map_cons]
      exact commandOf_of_refused hq hword _

end Lines

/-- On a command line that is well-formed but for the value of its port, the line is read exactly if the
value spells a port, and then with that port. A number that is no port is refused as too large, too
small or out of range, the empty text as empty, and everything else for its value too. -/
theorem parse_port_iff {before after : List String} {i : Invocation} (h : AroundPort before after i)
    (v : String) :
    let answer := parse ((before ++ ("--port=" ++ v) :: after).map bytes)
    (∀ j, answer = .ok j ↔ ∃ n : UInt16, SpellsInteger v.toList n.toNat ∧
      j = ⟨i.directory?, withPort n i.command⟩) ∧
    (∀ n, SpellsInteger v.toList n → n < 0 ∨ 65535 < n →
      ∃ e, answer = .error (.invalidPort v e) ∧ e.message = outsideReason n) ∧
    (v = "" → ∃ e, answer = .error (.invalidPort v e) ∧
      e.message = "cannot parse integer from empty string") ∧
    ((¬∃ n, SpellsInteger v.toList n) → ∃ e, answer = .error (.invalidPort v e)) := by
  obtain ⟨hok, herror⟩ := parse_around h v
  refine ⟨?_, ?_, ?_, ?_⟩
  · intro j
    constructor
    · intro hj
      cases hv : port v with
      | ok n =>
        have hsame := (hok n hv).symm.trans hj
        exact ⟨n, port_eq_ok_iff.1 hv, (Except.ok.inj hsame).symm⟩
      | error e => cases (herror e hv).symm.trans hj
    · rintro ⟨n, hn, rfl⟩
      exact hok n (port_eq_ok_iff.2 hn)
  · intro n hn hout
    obtain ⟨e, he, hreason⟩ := port_of_outside hn hout
    exact ⟨e, herror e he, hreason⟩
  · rintro rfl
    exact ⟨.empty, herror .empty rfl, rfl⟩
  · intro hnone
    cases hv : port v with
    | ok n => exact absurd ⟨_, port_eq_ok_iff.1 hv⟩ hnone
    | error e => exact ⟨e, herror e hv⟩

/-- Zeros and a sign in front of a port change nothing; one more than the greatest port is out of range,
and one more than 64 bits hold is too large. -/
theorem parse_port_of_version :
    AroundPort ["member-rpc", "version"] ["-a", "h"] ⟨none, .version "h" none⟩ ∧
      parse (["member-rpc", "version", "--port=+0080", "-a", "h"].map bytes) =
        .ok ⟨none, .version "h" (some 80)⟩ ∧
      ∃ e e', parse (["member-rpc", "version", "--port=65536", "-a", "h"].map bytes) =
          .error (.invalidPort "65536" e) ∧ e.message = "65536 is not in 0..=65535" ∧
        parse (["member-rpc", "version", "--port=9223372036854775808", "-a", "h"].map bytes) =
          .error (.invalidPort "9223372036854775808" e') ∧
        e'.message = "number too large to fit in target type" := by
  have hhost : ¬StartsWith "-" "h" := by
    rintro ⟨r, hr⟩
    have hlist := congrArg String.toList hr
    rw [String.toList_append] at hlist
    exact absurd (List.cons.inj hlist).1 (by decide)
  have hline : AroundPort ["member-rpc", "version"] ["-a", "h"] ⟨none, .version "h" none⟩ := by
    refine @AroundPort.line _ [] "version" [] _ .version [] [.option .address "h"] none _ .none rfl
      (.inr rfl) .nil nofun (.apart .short (.inr hhost) .nil) ⟨?_, ?_⟩ ?_ rfl
    · intro o s hmem
      cases List.mem_singleton.1 hmem
      decide
    · intro o
      cases o <;> decide
    · exact .version rfl (.none rfl) rfl
  have hdigits : ∀ ds : List Char, ds ≠ [] → ds.all Char.isDigit = true →
      SpellsInteger ds (Nat.ofDigitChars 10 ds 0) :=
    fun ds hne hds => .plain hne (List.all_eq_true.1 hds)
  refine ⟨hline, ?_, ?_⟩
  · refine ((parse_port_iff hline "+0080").1 _).2 ⟨80, ?_, rfl⟩
    exact @SpellsInteger.plus "0080".toList (by decide) (List.all_eq_true.1 (by decide))
  · obtain ⟨e, he, hreason⟩ := (parse_port_iff hline "65536").2.1 65536
      (hdigits _ (by decide) (by decide)) (.inr (by omega))
    obtain ⟨e', he', hreason'⟩ := (parse_port_iff hline "9223372036854775808").2.1
      9223372036854775808 (hdigits _ (by decide) (by decide)) (.inr (by omega))
    exact ⟨e, e', he, hreason, he', hreason'⟩

end MemberRelay.Proofs
