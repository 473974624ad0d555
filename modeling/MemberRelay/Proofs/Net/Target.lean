import Mathlib.Data.List.Basic
import Mathlib.Data.List.TakeWhile
import Mathlib.Tactic.Common
import MemberRelay.Client
import MemberRelay.Proofs.Actions
import MemberRelay.Proofs.Text.Decimal

/-!
# What a client dials

A client puts an address and a port together and reads the result as a URI. The host of that URI is
the address, and its port the port, exactly where no mark in the address has a meaning there.
-/

namespace MemberRelay.Proofs

/-- A host that a target keeps as it is: no slash, question mark or hash ends it, no `@` makes a
user of its start, and either no colon and no bracket in front or one pair of brackets around it. -/
def KeepsHost (cs : List Char) : Prop :=
  (∀ c ∈ cs, Authority.isEnd c = false ∧ c ≠ '@') ∧
    ((':' ∉ cs ∧ cs.head? ≠ some '[') ∨ ∃ inner, ']' ∉ inner ∧ cs = '[' :: inner ++ [']'])

/-! ### The authority -/

lemma authority_of_parse? {rest : List Char} {uri : Uri}
    (h : Uri.parse? ("http://".toList ++ rest) = some uri) :
    uri.authority = rest.takeWhile (fun c => !Authority.isEnd c) := by
  have hlit : Reader.literal? "http://".toList ("http://".toList ++ rest) = some rest :=
    Reader.literal?_eq_some_iff.2 rfl
  rw [Uri.parse?, hlit] at h
  simp only [Option.bind_eq_bind, Option.bind_some] at h
  split at h
  · split at h
    · rw [← Option.some.inj h]
    · cases h
  · cases h

lemma toList_address (address : String) (port : UInt16) :
    (s!"{address}:{port}").toList = address.toList ++ ':' :: Digits.decimal port.toNat := by
  have hport := toList_toString_port port
  change (toString address ++ toString ":" ++ toString port).toList = _
  rw [String.toList_append, String.toList_append, hport, List.append_assoc]
  rfl

/-- A port ends in a digit. -/
lemma getLast?_with_port (cs : List Char) (n : Nat) {d : Char} (hd : d.isDigit = false) :
    (cs ++ ':' :: Digits.decimal n).getLast? ≠ some d := by
  obtain ⟨ds, e, hds⟩ := (List.eq_nil_or_concat' (Digits.decimal n)).resolve_left (decimal_ne_nil n)
  have he : e ≠ d := ne_of_mem_decimal (n := n) (by simp [hds]) hd
  rw [hds, ← List.cons_append, ← List.append_assoc, List.getLast?_concat]
  simpa using he

lemma authority_of_target? {address : String} {port : UInt16} {uri : Uri}
    (h : Client.target? s!"{address}:{port}" = .ok uri) :
    uri.authority = (address.toList ++ ':' :: Digits.decimal port.toNat).takeWhile
      (fun c => !Authority.isEnd c) := by
  rw [Client.target?, String.toList_append, toList_address] at h
  split at h
  · next hparse =>
    rw [← Except.ok.inj h]
    exact authority_of_parse? hparse
  · cases h

lemma isEnd_of_mem_decimal {n : Nat} {c : Char} (h : c ∈ Digits.decimal n) :
    Authority.isEnd c = false := by
  have hslash := ne_of_mem_decimal h (d := '/') (by decide)
  have hquery := ne_of_mem_decimal h (d := '?') (by decide)
  have hhash := ne_of_mem_decimal h (d := '#') (by decide)
  simp [Authority.isEnd, hslash, hquery, hhash]

lemma isEnd_of_mem_with_port {cs : List Char} {n : Nat} {c : Char}
    (hend : ∀ c ∈ cs, Authority.isEnd c = false) (hc : c ∈ cs ++ ':' :: Digits.decimal n) :
    Authority.isEnd c = false := by
  rcases List.mem_append.1 hc with hc | hc
  · exact hend c hc
  · rcases List.mem_cons.1 hc with rfl | hc
    · rfl
    · exact isEnd_of_mem_decimal hc

lemma authority_eq_of_no_end {address : String} {port : UInt16} {uri : Uri}
    (h : Client.target? s!"{address}:{port}" = .ok uri)
    (hend : ∀ c ∈ address.toList, Authority.isEnd c = false) :
    uri.authority = address.toList ++ ':' :: Digits.decimal port.toNat := by
  rw [authority_of_target? h, List.takeWhile_eq_self_iff]
  intro c hc
  rw [isEnd_of_mem_with_port hend hc]
  rfl

/-! ### Host and port of a target -/

lemma afterUser_of_no_at {cs : List Char} (h : ∀ c ∈ cs, c ≠ '@') :
    Authority.afterUser cs = cs := by
  have hall : cs.reverse.takeWhile (· ≠ '@') = cs.reverse := by
    rw [List.takeWhile_eq_self_iff]
    intro c hc
    exact decide_eq_true (h c (List.mem_reverse.1 hc))
  rw [Authority.afterUser, hall, List.reverse_reverse]

lemma mem_afterUser {cs : List Char} {c : Char} (h : c ∈ Authority.afterUser cs) :
    c ∈ cs ∧ c ≠ '@' := by
  rw [Authority.afterUser, List.mem_reverse] at h
  refine ⟨List.mem_reverse.1 ((List.takeWhile_sublist _).mem h), ?_⟩
  have hc := List.mem_takeWhile_imp h
  exact of_decide_eq_true hc

lemma host_of_bracket {uri : Uri} {cs : List Char}
    (h : Authority.afterUser uri.authority = '[' :: cs) :
    uri.host = '[' :: cs.takeWhile (· ≠ ']') ++ [']'] := by
  rw [Uri.host, h]
  rfl

lemma host_of_no_bracket {uri : Uri} (h : (Authority.afterUser uri.authority).head? ≠ some '[') :
    uri.host = (Authority.afterUser uri.authority).takeWhile (· ≠ ':') := by
  rw [Uri.host]
  split
  · next cs hcs =>
    rw [hcs] at h
    exact absurd rfl h
  · rfl

/-- A host holds characters of the authority after the user, and the brackets around it. -/
lemma mem_host {uri : Uri} {c : Char} (h : c ∈ uri.host) :
    c = '[' ∨ c = ']' ∨ c ∈ Authority.afterUser uri.authority := by
  by_cases hhead : (Authority.afterUser uri.authority).head? = some '['
  · obtain ⟨cs, hcs⟩ := List.head?_eq_some_iff.1 hhead
    rw [host_of_bracket hcs] at h
    rw [hcs]
    rcases List.mem_append.1 h with h | h
    · rcases List.mem_cons.1 h with rfl | h
      · exact .inl rfl
      · exact .inr (.inr (List.mem_cons_of_mem _ ((List.takeWhile_sublist _).mem h)))
    · exact .inr (.inl (List.mem_singleton.1 h))
  · rw [host_of_no_bracket hhead] at h
    exact .inr (.inr ((List.takeWhile_sublist _).mem h))

lemma withoutPlus_decimal (n : Nat) : Uri.withoutPlus (Digits.decimal n) = Digits.decimal n := by
  unfold Uri.withoutPlus
  split
  · next ds hds =>
    have hmem : '+' ∈ Digits.decimal n := by
      rw [hds]
      exact List.mem_cons_self
    exact absurd (isDigit_of_mem_decimal hmem) (by decide)
  · rfl

lemma port?_decimal (port : UInt16) : Uri.port? (Digits.decimal port.toNat) = some port := by
  rw [Uri.port?, withoutPlus_decimal, if_pos ⟨decimal_ne_nil _, all_isDigit_decimal _⟩,
    below?_decimal port.toNat_lt, Option.map_some]
  simp

lemma isEnd_of_mem_authority {address : String} {port : UInt16} {uri : Uri} {c : Char}
    (h : Client.target? s!"{address}:{port}" = .ok uri) (hc : c ∈ uri.authority) :
    Authority.isEnd c = false := by
  rw [authority_of_target? h] at hc
  have hfalse := List.mem_takeWhile_imp hc
  simpa using hfalse

/-- No character of a host ends an authority or a user. -/
lemma no_mark_of_mem_host {address : String} {port : UInt16} {uri : Uri} {c : Char}
    (h : Client.target? s!"{address}:{port}" = .ok uri) (hc : c ∈ uri.host) :
    Authority.isEnd c = false ∧ c ≠ '@' := by
  rcases mem_host hc with rfl | rfl | hc
  · decide
  · decide
  · obtain ⟨hmem, hat⟩ := mem_afterUser hc
    exact ⟨isEnd_of_mem_authority h hmem, hat⟩

section WithoutMarks

variable {address : String} {port : UInt16} {uri : Uri}
  (h : Client.target? s!"{address}:{port}" = .ok uri)
  (hmarks : ∀ c ∈ address.toList, Authority.isEnd c = false ∧ c ≠ '@')
include h hmarks

lemma authority_eq_of_no_mark :
    uri.authority = address.toList ++ ':' :: Digits.decimal port.toNat :=
  authority_eq_of_no_end h (fun c hc => (hmarks c hc).1)

lemma afterUser_of_no_mark : Authority.afterUser uri.authority = uri.authority := by
  apply afterUser_of_no_at
  intro c hc
  rw [authority_eq_of_no_mark h hmarks] at hc
  rcases List.mem_append.1 hc with hc | hc
  · exact (hmarks c hc).2
  · rcases List.mem_cons.1 hc with rfl | hc
    · decide
    · exact ne_of_mem_decimal hc (by decide)

/-- The port that was asked for stands after the last colon. -/
lemma port_of_no_mark : uri.port = port := by
  have hauth := authority_eq_of_no_mark h hmarks
  have hcolon : uri.authority.contains ':' = true := by
    rw [hauth, List.contains_iff_mem]
    exact List.mem_append_right _ List.mem_cons_self
  have hlast : (uri.authority.reverse.takeWhile (· ≠ ':')).reverse = Digits.decimal port.toNat := by
    have hdigits : ∀ c ∈ (Digits.decimal port.toNat).reverse, decide (c ≠ ':') = true :=
      fun c hc => decide_eq_true (ne_of_mem_decimal (List.mem_reverse.1 hc) (by decide))
    rw [hauth, List.reverse_append, List.reverse_cons, List.append_assoc,
      List.takeWhile_append_of_pos hdigits]
    simp
  rw [Uri.port, if_pos hcolon, hlast, port?_decimal]
  rfl

/-- The host is the address itself if it has no colon and no bracket in front, or a pair of brackets
around it, and no other address. -/
lemma host_of_no_mark : uri.host = address.toList ↔
    ((':' ∉ address.toList ∧ address.toList.head? ≠ some '[') ∨
      ∃ inner, ']' ∉ inner ∧ address.toList = '[' :: inner ++ [']']) := by
  have hafter : Authority.afterUser uri.authority =
      address.toList ++ ':' :: Digits.decimal port.toNat := by
    rw [afterUser_of_no_mark h hmarks, authority_eq_of_no_mark h hmarks]
  by_cases hhead : address.toList.head? = some '['
  · obtain ⟨cs, hcs⟩ := List.head?_eq_some_iff.1 hhead
    rw [hcs, List.cons_append] at hafter
    rw [host_of_bracket hafter, hcs]
    constructor
    · intro hhost
      refine .inr ⟨_, ?_, hhost.symm⟩
      exact fun hmem => absurd (List.mem_takeWhile_imp hmem) (by decide)
    · rintro (⟨-, hne⟩ | ⟨inner, hinner, heq⟩)
      · exact absurd rfl hne
      · have hcs' : cs = inner ++ [']'] := by simpa using heq
        have hall : ∀ d ∈ inner, decide (d ≠ ']') = true :=
          fun d hd => decide_eq_true (fun hd' => hinner (hd' ▸ hd))
        rw [hcs', List.append_assoc, List.takeWhile_append_of_pos hall]
        simp
  · have hhead' : (Authority.afterUser uri.authority).head? ≠ some '[' := by
      rw [hafter]
      cases hcs : address.toList with
      | nil => simp
      | cons c cs =>
        rw [hcs] at hhead
        exact hhead
    rw [host_of_no_bracket hhead', hafter]
    constructor
    · intro hhost
      refine .inl ⟨?_, hhead⟩
      rw [← hhost]
      exact fun hmem => absurd (List.mem_takeWhile_imp hmem) (by decide)
    · rintro (⟨hcolon, -⟩ | ⟨inner, -, heq⟩)
      · have hall : ∀ d ∈ address.toList, decide (d ≠ ':') = true :=
          fun d hd => decide_eq_true (fun hd' => hcolon (hd' ▸ hd))
        rw [List.takeWhile_append_of_pos hall]
        simp
      · exact absurd (by rw [heq]; rfl) hhead

end WithoutMarks

theorem target_is_asked_iff {address : String} {port : UInt16} {uri : Uri}
    (h : Client.target? s!"{address}:{port}" = .ok uri) :
    uri.host = address.toList ∧ uri.port = port ↔ KeepsHost address.toList := by
  constructor
  · rintro ⟨hhost, -⟩
    have hmarks : ∀ c ∈ address.toList, Authority.isEnd c = false ∧ c ≠ '@' := by
      intro c hc
      rw [← hhost] at hc
      exact no_mark_of_mem_host h hc
    exact ⟨hmarks, (host_of_no_mark h hmarks).1 hhost⟩
  · rintro ⟨hmarks, hshape⟩
    exact ⟨(host_of_no_mark h hmarks).2 hshape, port_of_no_mark h hmarks⟩

/-! ### Dialing -/

section Dialing

variable (net : Network) (address : String) (port : UInt16) (timeout : Duration) (m : Machine)

lemma connect_runOn : (Client.connect net address port timeout).runOn m =
    let asked := s!"{address}:{port}"
    match Client.target? asked with
    | .error f => (.error f, m)
    | .ok uri =>
      let m' := { m with contacts := m.contacts ++ [.dialed uri timeout] }
      match net.dial uri timeout with
      | .silent => (.error (.connect s!"{asked}: timed out after {timeout.text}"), m')
      | .failed reason => (.error (.connect s!"{asked}: {reason}"), m')
      | .connected => (.ok ⟨asked, uri⟩, { m' with journal := m'.journal ++ [.connected asked] }) := by
  simp only [Client.connect, bind_runOn, ofExcept_runOn, contact_runOn]
  cases Client.target? s!"{address}:{port}" with
  | error f => rfl
  | ok uri =>
    dsimp only
    cases net.dial uri timeout <;> rfl

lemma connect_runOn_of_error {f : Failure}
    (h : Client.target? s!"{address}:{port}" = .error f) :
    (Client.connect net address port timeout).runOn m = (.error f, m) := by
  simp only [connect_runOn, h]

lemma connect_contacts {uri : Uri} (h : Client.target? s!"{address}:{port}" = .ok uri) :
    ((Client.connect net address port timeout).runOn m).2.contacts =
      m.contacts ++ [.dialed uri timeout] := by
  simp only [connect_runOn, h]
  cases net.dial uri timeout <;> rfl

lemma connect_ne_invalidAddress {uri : Uri} (h : Client.target? s!"{address}:{port}" = .ok uri)
    (text : String) :
    ((Client.connect net address port timeout).runOn m).1 ≠ .error (.invalidAddress text) := by
  simp only [connect_runOn, h]
  cases net.dial uri timeout <;> nofun

lemma target?_error {f : Failure} (h : Client.target? s!"{address}:{port}" = .error f) :
    ∃ text, f = .invalidAddress text := by
  rw [Client.target?] at h
  split at h
  · cases h
  · exact ⟨_, (Except.error.inj h).symm⟩

end Dialing

/-- A dial that is not refused goes to the address and port that were asked for just where the
address is a host that a target keeps as it is. -/
theorem connect_dials_asked_iff (net : Network) (address : String) (port : UInt16)
    (timeout : Duration) (m : Machine)
    (h : ∀ text, ((Client.connect net address port timeout).runOn m).1 ≠
      .error (.invalidAddress text)) :
    ∃ uri : Uri, ((Client.connect net address port timeout).runOn m).2.contacts =
        m.contacts ++ [.dialed uri timeout] ∧
      (uri.host = address.toList ∧ uri.port = port ↔ KeepsHost address.toList) := by
  cases htarget : Client.target? s!"{address}:{port}" with
  | error f =>
    obtain ⟨text, rfl⟩ := target?_error address port htarget
    rw [connect_runOn_of_error net address port timeout m htarget] at h
    exact absurd rfl (h text)
  | ok uri =>
    exact ⟨uri, connect_contacts net address port timeout m htarget, target_is_asked_iff htarget⟩

theorem connect_dials_bracketed_address :
    (∀ text, ((Client.connect .empty "[::1]" 50051 (.ofSecs 10)).runOn {}).1 ≠
      .error (.invalidAddress text)) ∧
    ∃ uri : Uri, ((Client.connect .empty "[::1]" 50051 (.ofSecs 10)).runOn {}).2.contacts =
        [.dialed uri (.ofSecs 10)] ∧ uri.host = "[::1]".toList ∧ uri.port = 50051 := by
  have hresult : ((Client.connect .empty "[::1]" 50051 (.ofSecs 10)).runOn {}).1 =
      .error (.connect "[::1]:50051: transport error") := by rfl
  have hne : ∀ text, ((Client.connect .empty "[::1]" 50051 (.ofSecs 10)).runOn {}).1 ≠
      .error (.invalidAddress text) := by
    intro text htext
    rw [hresult] at htext
    cases htext
  obtain ⟨uri, hcontacts, hiff⟩ := connect_dials_asked_iff .empty "[::1]" 50051 (.ofSecs 10) {} hne
  have hmarks : "[::1]".toList.all (fun c => !Authority.isEnd c && c != '@') = true := by decide
  have hkeeps : KeepsHost "[::1]".toList := by
    refine ⟨fun c hc => ?_, .inr ⟨"::1".toList, by decide, by decide⟩⟩
    simpa using List.all_eq_true.1 hmarks c hc
  exact ⟨hne, uri, hcontacts, hiff.2 hkeeps⟩

/-- A slash in the address ends the host and pushes the port into the path. -/
theorem connect_dials_before_slash :
    ((Client.connect .empty "127.0.0.1/x" 50051 (.ofSecs 10)).runOn {}).1 =
        .error (.connect "127.0.0.1/x:50051: transport error") ∧
      ∃ uri : Uri, ((Client.connect .empty "127.0.0.1/x" 50051 (.ofSecs 10)).runOn {}).2.contacts =
          [.dialed uri (.ofSecs 10)] ∧ uri.host = "127.0.0.1".toList ∧ uri.port = 80 :=
  ⟨rfl, ⟨"127.0.0.1".toList, by decide⟩, rfl, by decide, by decide⟩

end MemberRelay.Proofs
