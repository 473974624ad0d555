import MemberRelay.Proofs.Net.Displayed
import MemberRelay.Proofs.Net.Target
import MemberRelay.Proofs.Run.Stages

/-!
# Where a server listens

A server puts its port behind its address and reads both as one text. The last colon of that text is the
one that was put there, so the address is read on its own, and neither an address brings a port of its
own nor does it change the one it gets.
-/

namespace MemberRelay.Proofs

section Ports

variable {a : SocketAddress} {s : Server}

lemma SpellsNumber.colon_not_mem {n : Nat} {ds : List Char} (h : SpellsNumber 10 n ds) : ':' ∉ ds := by
  intro hmem
  cases h.digits ':' hmem

/-- Behind the address stands its own port and nothing else. -/
lemma parse?_with_port_iff {cs : List Char} {port : UInt16} :
    SocketAddress.parse? (cs ++ ':' :: Digits.decimal port.toNat) = some a ↔
      SpellsHost a cs ∧ a.port = port := by
  have hdecimal := spellsNumber_decimal port.toNat
  rw [parse?_eq_some_iff]
  constructor
  · rintro ⟨front, back, hsplit, hhost, hport⟩
    obtain ⟨rfl, rfl⟩ :=
      append_cons_inj_of_not_mem_back hdecimal.colon_not_mem hport.colon_not_mem hsplit
    refine ⟨hhost, UInt16.toNat_inj.1 ?_⟩
    exact hport.value.symm.trans hdecimal.value
  · rintro ⟨hhost, rfl⟩
    exact ⟨cs, _, rfl, hhost, hdecimal⟩

lemma socketAddress_eq_ok_iff :
    s.socketAddress = .ok a ↔ SpellsHost a s.listenAddress.toList ∧ a.port = s.port := by
  rw [← parse?_with_port_iff, ← toList_address, Server.socketAddress]
  split
  · next a' h => rw [h, Except.ok.injEq, Option.some_inj]
  · next h =>
    rw [h]
    exact iff_of_false nofun nofun

/-- A server without a literal for its address has nowhere to listen. -/
lemma socketAddress_eq_error (h : ∀ a, ¬SpellsHost a s.listenAddress.toList) :
    s.socketAddress = .error (.invalidAddress
      s!"{s.listenAddress}:{s.port}: invalid socket address syntax") := by
  rw [Server.socketAddress]
  split
  · next a hparse =>
    rw [toList_address, parse?_with_port_iff] at hparse
    exact absurd hparse.1 (h a)
  · rfl

end Ports

/-! ### What is no literal -/

section Literals

variable {a : SocketAddress} {cs : List Char}

/-- Where no bracket opens, a literal has decimal digits and dots only. -/
lemma SpellsHost.bracket_or_decimal (h : SpellsHost a cs) :
    cs.head? = some '[' ∨ ∀ c ∈ cs, Digits.isDigit 10 c = true ∨ c = '.' := by
  cases h with
  | quad h => exact .inr h.chars
  | bracketed h hscope => exact .inl rfl

/-- A literal has no port of its own. -/
lemma SpellsHost.ne_with_port (h : SpellsHost a cs) (front : List Char) (n : Nat) :
    cs ≠ front ++ ':' :: Digits.decimal n := by
  intro hcs
  cases h with
  | quad h =>
    rcases h.chars ':' (by simp [hcs]) with hdigit | hdot
    · cases hdigit
    · cases hdot
  | bracketed h hscope =>
    have hlast := congrArg List.getLast? hcs
    rw [List.getLast?_concat] at hlast
    exact getLast?_with_port front n rfl hlast.symm

end Literals

/-- A server listens exactly where its address is a literal, on the address of that literal and on its
own port, and says so beforehand with a text that is read as the same address. The text that any
address is shown as is such a literal. With any other text the server fails before it tries to listen,
and changes nothing; an address with a port of its own is such a text, and so is the name of a host. -/
theorem server_listens_on_literals :
    (∀ s : Server,
      (∀ a, s.socketAddress = .ok a ↔ SpellsHost a s.listenAddress.toList ∧ a.port = s.port) ∧
      (∀ a, s.socketAddress = .ok a → ∀ (net : Network) (m : Machine),
        let m' := ((s.start net).runOn m).2
        m'.contacts = m.contacts ++ [.listened a] ∧
          ∃ events, m'.journal = m.journal ++ .serverStarting (String.ofList a.text) :: events) ∧
      ((∀ a, ¬SpellsHost a s.listenAddress.toList) →
        let failure := Failure.invalidAddress
          s!"{s.listenAddress}:{s.port}: invalid socket address syntax"
        s.socketAddress = .error failure ∧
          ∀ (net : Network) (m : Machine), (s.start net).runOn m = (.error failure, m)) ∧
      ((∃ (host : String) (port : UInt16), s.listenAddress = s!"{host}:{port}") ∨
          (s.listenAddress.toList.head? ≠ some '[' ∧
            ∃ c ∈ s.listenAddress.toList, c.isDigit = false ∧ c ≠ '.') →
        ∀ a, ¬SpellsHost a s.listenAddress.toList)) ∧
    ∀ a : SocketAddress, SocketAddress.parse? a.text = some a ∧
      Server.socketAddress ⟨String.ofList (shownHost a), a.port⟩ = .ok a := by
  refine ⟨fun s => ⟨fun a => socketAddress_eq_ok_iff, ?_, ?_, ?_⟩, fun a => ⟨parse?_text a, ?_⟩⟩
  · intro a ha net m
    rw [start_runOn, ha]
    dsimp only
    cases net.listen a with
    | running => exact ⟨rfl, [], rfl⟩
    | ended => exact ⟨rfl, [], rfl⟩
    | failed reason => exact ⟨rfl, [.serverFailed reason], by simp⟩
  · intro hno
    have herror := socketAddress_eq_error hno
    refine ⟨herror, fun net m => ?_⟩
    rw [start_runOn, herror]
  · rintro (⟨host, port, hport⟩ | ⟨hopen, c, hc, hdigit, hdot⟩) a ha
    · rw [hport, toList_address] at ha
      exact ha.ne_with_port _ _ rfl
    · rcases ha.bracket_or_decimal with hbracket | hdecimal
      · exact hopen hbracket
      · rcases hdecimal c hc with hdecimal | h
        · rw [isDigit_ten_iff.1 hdecimal] at hdigit
          cases hdigit
        · exact hdot h
  · rw [socketAddress_eq_ok_iff, String.toList_ofList]
    exact ⟨spellsHost_shown a, rfl⟩

theorem server_listens_on_bracketed_literal :
    Server.socketAddress ⟨"[1::ffff:1.2.3.4%7]", 50051⟩ =
        .ok (.v6 ⟨[1, 0, 0, 0, 0, 0xFFFF, 0x102, 0x304], rfl⟩ 7 50051) ∧
      (∃ a, SpellsHost a "[1::ffff:1.2.3.4%7]".toList ∧ a.port = 50051) ∧
      ∀ (net : Network) (m : Machine), (Server.start net ⟨"localhost", 50051⟩).runOn m =
        (.error (.invalidAddress "localhost:50051: invalid socket address syntax"), m) := by
  have haddress : Server.socketAddress ⟨"[1::ffff:1.2.3.4%7]", 50051⟩ =
      .ok (.v6 ⟨[1, 0, 0, 0, 0, 0xFFFF, 0x102, 0x304], rfl⟩ 7 50051) := by rfl
  obtain ⟨hiff, -, -, -⟩ := server_listens_on_literals.1 ⟨"[1::ffff:1.2.3.4%7]", 50051⟩
  obtain ⟨-, -, hfails, hname⟩ := server_listens_on_literals.1 ⟨"localhost", 50051⟩
  have hhost := hname (.inr ⟨by decide, 'l', by decide, by decide, by decide⟩)
  exact ⟨haddress, ⟨_, (hiff _).1 haddress⟩, (hfails hhost).2⟩

end MemberRelay.Proofs
