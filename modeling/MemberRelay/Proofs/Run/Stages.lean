import MemberRelay.Program
import MemberRelay.Proofs.Net.Target
import MemberRelay.Proofs.Settings.Loaded

/-!
# The stages of a run

A run reads its arguments, loads its settings and runs its command, and ends at the first of these
that fails. What comes after a failure has no effect, and the command goes by the settings that were
loaded: a call dials the port that was named, or else theirs, and waits for as many seconds as they say.
-/

namespace MemberRelay.Proofs
open Settings

/-- The call that a command makes, and the port that it names for it. -/
structure RemoteCall where
  host : String
  port? : Option UInt16
  method : Method
  text : String

def remoteCall? : Arguments.Command → Option RemoteCall
  | .serve => none
  | .send host port? payload => some ⟨host, port?, .send, payload⟩
  | .version host port? => some ⟨host, port?, .getVersion, ""⟩

namespace RemoteCall

/-- The address to dial: the port is the one that was named, or else that of the settings. -/
def address (c : RemoteCall) (s : Settings) : String := s!"{c.host}:{c.port?.getD s.client.port}"

/-- The reply of the host that a target leads to. -/
def reply (c : RemoteCall) (net : Network) (target : Uri) : Except Failure String :=
  match net.peer? target with
  | none => .error (.call ⟨.unavailable, "tcp connect error"⟩)
  | some peer =>
    Client.accept c.method (peer.answer c.method.path (c.method.request.encode c.text)).1

/-- A call dials a target for a time: the URI that its address makes, for the whole seconds of the
settings. A host that a target keeps is dialed as it is, on the port of the call. -/
structure Dials (c : RemoteCall) (s : Settings) (target : Uri) (timeout : Duration) : Prop where
  parsed : Client.target? (c.address s) = .ok target
  secs : timeout.secs = s.client.connectTimeoutSecs.toNat
  nanos : timeout.nanos = 0
  asked : KeepsHost c.host.toList →
    target.host = c.host.toList ∧ target.port = c.port?.getD s.client.port

lemma dials {c : RemoteCall} {s : Settings} {target : Uri}
    (h : Client.target? (c.address s) = .ok target) :
    c.Dials s target s.client.connectTimeout where
  parsed := h
  secs := rfl
  nanos := rfl
  asked := (target_is_asked_iff h).2

end RemoteCall

/-- What a command comes to under given settings: whom it contacts, and its result. -/
inductive Conducts (net : Network) (s : Settings) :
    Arguments.Command → List Contact → Except Failure Finish → Prop where
  | disabled (h : s.rpc.enabled = false) :
      Conducts net s .serve [] (.error (.config "rpc server is disabled in settings"))
  | misplaced {f : Failure} (h : s.rpc.enabled)
      (haddress : (Server.ofSettings s.rpc).socketAddress = .error f) :
      Conducts net s .serve [] (.error f)
  | unbound {address : SocketAddress} {reason : String} (h : s.rpc.enabled)
      (haddress : (Server.ofSettings s.rpc).socketAddress = .ok address)
      (hlisten : net.listen address = .failed reason) :
      Conducts net s .serve [.listened address] (.error (.serve reason))
  | ended {address : SocketAddress} (h : s.rpc.enabled)
      (haddress : (Server.ofSettings s.rpc).socketAddress = .ok address)
      (hlisten : net.listen address = .ended) :
      Conducts net s .serve [.listened address] (.ok (.done none))
  | serving {address : SocketAddress} (h : s.rpc.enabled)
      (haddress : (Server.ofSettings s.rpc).socketAddress = .ok address)
      (hlisten : net.listen address = .running) :
      Conducts net s .serve [.listened address] (.ok .serving)
  | misdialed {cmd : Arguments.Command} {c : RemoteCall} {f : Failure} (hc : remoteCall? cmd = some c)
      (htarget : Client.target? (c.address s) = .error f) :
      Conducts net s cmd [] (.error f)
  | silent {cmd : Arguments.Command} {c : RemoteCall} {target : Uri} {timeout : Duration}
      (hc : remoteCall? cmd = some c) (hdials : c.Dials s target timeout)
      (hdial : net.dial target timeout = .silent) :
      Conducts net s cmd [.dialed target timeout]
        (.error (.connect s!"{c.address s}: timed out after {timeout.text}"))
  | unreached {cmd : Arguments.Command} {c : RemoteCall} {target : Uri} {timeout : Duration}
      {reason : String} (hc : remoteCall? cmd = some c) (hdials : c.Dials s target timeout)
      (hdial : net.dial target timeout = .failed reason) :
      Conducts net s cmd [.dialed target timeout]
        (.error (.connect s!"{c.address s}: {reason}"))
  | unanswered {cmd : Arguments.Command} {c : RemoteCall} {target : Uri} {timeout : Duration}
      {f : Failure} (hc : remoteCall? cmd = some c) (hdials : c.Dials s target timeout)
      (hdial : net.dial target timeout = .connected) (hreply : c.reply net target = .error f) :
      Conducts net s cmd [.dialed target timeout] (.error f)
  | replied {cmd : Arguments.Command} {c : RemoteCall} {target : Uri} {timeout : Duration}
      {text : String} (hc : remoteCall? cmd = some c) (hdials : c.Dials s target timeout)
      (hdial : net.dial target timeout = .connected) (hreply : c.reply net target = .ok text) :
      Conducts net s cmd [.dialed target timeout] (.ok (.done (some text)))

namespace Conducts

variable {net : Network} {s : Settings} {cmd : Arguments.Command} {c : RemoteCall} {target : Uri}
  {contacts : List Contact} {result : Except Failure Finish}
  (h : Conducts net s cmd contacts result) (hc : remoteCall? cmd = some c)
  (htarget : Client.target? (c.address s) = .ok target)
include h hc htarget

/-- A call whose address makes a URI dials it once, whatever comes of it. -/
lemma dialed : ∃ timeout, contacts = [.dialed target timeout] ∧ c.Dials s target timeout := by
  cases h with
  | disabled | misplaced | unbound | ended | serving => cases hc
  | misdialed hc' htarget' =>
    cases hc'.symm.trans hc
    cases htarget'.symm.trans htarget
  | silent hc' hdials | unreached hc' hdials | unanswered hc' hdials | replied hc' hdials =>
    cases hc'.symm.trans hc
    cases hdials.parsed.symm.trans htarget
    exact ⟨_, rfl, hdials⟩

/-- Where the dial gets through, the reply is what the command comes to. -/
lemma eq_reply (hdial : ∀ timeout, net.dial target timeout = .connected) :
    result = (c.reply net target).map fun text => .done (some text) := by
  cases h with
  | disabled | misplaced | unbound | ended | serving => cases hc
  | misdialed hc' htarget' =>
    cases hc'.symm.trans hc
    cases htarget'.symm.trans htarget
  | silent hc' hdials hdial' | unreached hc' hdials hdial' =>
    cases hc'.symm.trans hc
    cases hdials.parsed.symm.trans htarget
    cases hdial'.symm.trans (hdial _)
  | unanswered hc' hdials _ hreply | replied hc' hdials _ hreply =>
    cases hc'.symm.trans hc
    cases hdials.parsed.symm.trans htarget
    rw [hreply]
    rfl

end Conducts

/-- A command went by the settings in the cell. It fixed the cell and left the files alone. -/
structure Conducted (net : Network) (cmd : Arguments.Command) (m : Machine)
    (run : Except Failure Finish × Machine) : Prop where
  conducts : ∃ contacts, Conducts net m.cell.get cmd contacts run.1 ∧
    run.2.contacts = m.contacts ++ contacts
  cell : run.2.cell = m.cell.fixed
  files : run.2.files = m.files

section Commands

variable (net : Network) (m : Machine)

lemma start_runOn (server : Server) :
    (server.start net).runOn m =
      match server.socketAddress with
      | .error f => (.error f, m)
      | .ok address =>
        let m' := { m with
          journal := m.journal ++ [.serverStarting (String.ofList address.text)]
          contacts := m.contacts ++ [.listened address] }
        match net.listen address with
        | .running => (.ok true, m')
        | .ended => (.ok false, m')
        | .failed reason =>
          (.error (.serve reason), { m' with journal := m'.journal ++ [.serverFailed reason] }) := by
  simp only [Server.start, bind_runOn, ofExcept_runOn, report_runOn, contact_runOn]
  cases server.socketAddress with
  | error f => rfl
  | ok address =>
    dsimp only
    cases net.listen address <;> rfl

lemma serve_conducted : Conducted net .serve m ((Run.serve net).runOn m) := by
  cases henabled : m.cell.get.rpc.enabled with
  | false =>
    have hrun : (Run.serve net).runOn m =
        (.error (.config "rpc server is disabled in settings"), { m with cell := m.cell.fixed }) := by
      simp [Run.serve, Server.isEnabled, bind_runOn, henabled]
    rw [hrun]
    exact ⟨⟨[], .disabled henabled, by simp⟩, rfl, rfl⟩
  | true =>
    have hrun : (Run.serve net).runOn m =
        match ((Server.ofSettings m.cell.get.rpc).start net).runOn
            { m with cell := m.cell.fixed } with
        | (.ok up, m') => (.ok (if up then .serving else .done none), m')
        | (.error f, m') => (.error f, m') := by
      simp only [Run.serve, Server.isEnabled, Server.ofGlobal, bind_runOn, settings_runOn,
        pure_runOn, henabled, Bool.not_true, Bool.false_eq_true, if_false, Cell.get_fixed,
        Cell.fixed_fixed]
      rcases ((Server.ofSettings m.cell.get.rpc).start net).runOn _ with ⟨f | up, m'⟩
      · rfl
      · cases up <;> rfl
    rw [hrun, start_runOn]
    cases haddress : (Server.ofSettings m.cell.get.rpc).socketAddress with
    | error f => exact ⟨⟨[], .misplaced henabled haddress, by simp⟩, rfl, rfl⟩
    | ok address =>
      cases hlisten : net.listen address with
      | failed reason =>
        simp only [hlisten]
        exact ⟨⟨_, .unbound henabled haddress hlisten, rfl⟩, rfl, rfl⟩
      | ended =>
        simp only [hlisten]
        exact ⟨⟨_, .ended henabled haddress hlisten, rfl⟩, rfl, rfl⟩
      | running =>
        simp only [hlisten]
        exact ⟨⟨_, .serving henabled haddress hlisten, rfl⟩, rfl, rfl⟩

/-- A call ends with the reply, and reports on the way. -/
lemma call_reports (client : Client) (c : RemoteCall) : ∃ events,
    (client.call net c.method c.text).runOn m =
      (c.reply net client.target, { m with journal := m.journal ++ events }) := by
  rw [Client.call, RemoteCall.reply]
  cases net.peer? client.target with
  | none => exact ⟨[], by simp⟩
  | some peer =>
    dsimp only
    rw [bind_runOn, reports_runOn]
    simp only [ofExcept_runOn]
    exact ⟨_, rfl⟩

lemma callOnce_conducted {cmd : Arguments.Command} {c : RemoteCall} (hc : remoteCall? cmd = some c) :
    Conducted net cmd m
      ((Run.callOnce net c.host c.port? fun client => client.call net c.method c.text).runOn m) := by
  simp only [Run.callOnce, Run.clientSettings, bind_runOn, settings_runOn, pure_runOn,
    Client.ofSettings, connect_runOn]
  have htimeout : ClientSettings.connectTimeout
      { m.cell.get.client with port := c.port?.getD m.cell.get.client.port } =
        m.cell.get.client.connectTimeout := rfl
  rw [htimeout]
  cases htarget : Client.target? (c.address m.cell.get) with
  | error f =>
    rw [RemoteCall.address] at htarget
    simp only [htarget]
    exact ⟨⟨[], .misdialed hc htarget, by simp⟩, rfl, rfl⟩
  | ok target =>
    have htarget' := htarget
    rw [RemoteCall.address] at htarget'
    simp only [htarget']
    have hdials := RemoteCall.dials htarget
    cases hdial : net.dial target m.cell.get.client.connectTimeout with
    | silent => exact ⟨⟨_, .silent hc hdials hdial, rfl⟩, rfl, rfl⟩
    | failed reason => exact ⟨⟨_, .unreached hc hdials hdial, rfl⟩, rfl, rfl⟩
    | connected =>
      dsimp only
      obtain ⟨events, hcall⟩ := call_reports net { m with
        cell := m.cell.fixed
        journal := m.journal ++ [.connected (c.address m.cell.get)]
        contacts := m.contacts ++ [.dialed target m.cell.get.client.connectTimeout] }
        ⟨c.address m.cell.get, target⟩ c
      rw [RemoteCall.address] at hcall
      rw [hcall]
      cases hreply : c.reply net target with
      | error f => exact ⟨⟨_, .unanswered hc hdials hdial hreply, rfl⟩, rfl, rfl⟩
      | ok text => exact ⟨⟨_, .replied hc hdials hdial hreply, rfl⟩, rfl, rfl⟩

theorem command_conducted (cmd : Arguments.Command) :
    Conducted net cmd m ((Run.command net cmd).runOn m) := by
  cases cmd with
  | serve => exact serve_conducted net m
  | send host port? payload =>
    exact @callOnce_conducted net m _ ⟨host, port?, .send, payload⟩ rfl
  | version host port? =>
    exact @callOnce_conducted net m _ ⟨host, port?, .getVersion, ""⟩ rfl

end Commands

/-! ### The stages -/

section Rejections

variable {advice : String} {program? : Option String} {r : Arguments.Rejection}

lemma reject_code : (Program.reject advice program? r).code = r.exitCode := by
  rw [Program.reject]
  split_ifs <;> rfl

lemma reject_request
    (h : (∃ page, r = .helpRequested page) ∨ ∃ scope, r = .versionRequested scope) :
    (Program.reject advice program? r).code = 0 := by
  rw [reject_code]
  rcases h with ⟨page, rfl⟩ | ⟨scope, rfl⟩ <;> rfl

lemma reject_mistake (hpage : ∀ page, r ≠ .helpRequested page)
    (hscope : ∀ scope, r ≠ .versionRequested scope) :
    (Program.reject advice program? r).code = 2 := by
  rw [reject_code]
  cases r with
  | helpRequested page => exact absurd rfl (hpage page)
  | versionRequested scope => exact absurd rfl (hscope scope)
  | _ => rfl

end Rejections

section Stages

variable (net : Network) (advice : Arguments.Advice) {args : List (List UInt8)} {m m' : Machine}
  {i : Arguments.Invocation} {s : Settings}

lemma run_of_invocation (hi : Arguments.parse args = .ok i) : Program.run net args m advice =
    match (loadGlobal i.directory?).runOn m with
    | (.error f, m') => (.ended ⟨1, "", ""⟩, { m' with journal := m'.journal ++
        [.runFailed s!"Failed to initialize settings: {f.message}"] })
    | (.ok (), m') =>
      match (Run.command net i.command).runOn m' with
      | (.error f, m'') =>
        (.ended ⟨1, "", ""⟩, { m'' with journal := m''.journal ++ [.runFailed f.message] })
      | (.ok finish, m'') => (Program.conclude (.ok finish), m'') := by
  rw [Program.run, hi]
  simp only [Program.invoke, bind_runOn, reportingFailure_runOn]
  rcases (loadGlobal i.directory?).runOn m with ⟨f | u, m'⟩
  · rfl
  · dsimp only
    rcases (Run.command net i.command).runOn m' with ⟨f | finish, m''⟩ <;> rfl

/-- Once the settings are loaded, the command is all that is left of a run. -/
lemma run_of_loaded (hi : Arguments.parse args = .ok i)
    (hload : (loadGlobal i.directory?).runOn m = (.ok (), m')) (hcell : m'.cell = ⟨some s⟩) :
    ∃ contacts result, Conducts net s i.command contacts result ∧
      (Program.run net args m advice).1 = Program.conclude result ∧
      (Program.run net args m advice).2.contacts = m'.contacts ++ contacts ∧
      (Program.run net args m advice).2.cell = ⟨some s⟩ ∧
      (Program.run net args m advice).2.files = m'.files := by
  have hrun := @run_of_invocation net advice args m i hi
  have hcommand := command_conducted net m' i.command
  rw [hload] at hrun
  rcases hfinish : (Run.command net i.command).runOn m' with ⟨result, m''⟩
  rw [hfinish] at hcommand
  obtain ⟨⟨contacts, hconducts, hmore⟩, hfixed, hkept⟩ := hcommand
  rw [hcell] at hconducts hfixed
  refine ⟨contacts, result, hconducts, ?_⟩
  cases result with
  | error f =>
    simp only [hfinish] at hrun
    rw [hrun]
    exact ⟨rfl, hmore, hfixed, hkept⟩
  | ok finish =>
    simp only [hfinish] at hrun
    rw [hrun]
    exact ⟨rfl, hmore, hfixed, hkept⟩

end Stages

/-- A run of the program ends at the first of its stages that fails, with nothing done of the later
ones. -/
theorem run_ends_at_first_failure (net : Network) (args : List (List UInt8)) (files : FileSystem)
    (home? : Option String) (advice : Arguments.Advice) :
    let start : Machine := { files, home? }
    let run := Program.run net args start advice
    (∀ r, Arguments.parse args = .error r →
      run.2 = start ∧ ∃ e, run.1 = .ended e ∧
        ((∃ page, r = .helpRequested page) ∨ (∃ scope, r = .versionRequested scope) → e.code = 0) ∧
        ((∀ page, r ≠ .helpRequested page) → (∀ scope, r ≠ .versionRequested scope) → e.code = 2)) ∧
    ∀ i, Arguments.parse args = .ok i →
      let load := (loadGlobal i.directory?).runOn start
      (∀ f, load.1 = .error f →
        run.1 = .ended ⟨1, "", ""⟩ ∧ run.2.contacts = [] ∧ run.2.cell = {} ∧
          run.2.files = load.2.files) ∧
      (load.1 = .ok () →
        ∃ dir text s, ((prepareDirectory i.directory?).runOn start).1 = .ok dir ∧
          load.2.files.readText (settingsPath dir) = .ok text ∧ parse text = .ok s ∧
          run.2.cell = ⟨some s⟩ ∧ run.2.files = load.2.files ∧
          ∃ result, Conducts net s i.command run.2.contacts result ∧
            (∀ reply, result = .ok (.done (some reply)) → run.1 = .ended ⟨0, reply ++ "\n", ""⟩) ∧
            (result = .ok (.done none) → run.1 = .ended ⟨0, "", ""⟩) ∧
            (result = .ok .serving → run.1 = .serving) ∧
            ∀ f, result = .error f → run.1 = .ended ⟨1, "", ""⟩) := by
  intro start run
  constructor
  · intro r hr
    have hrun : run =
        (.ended (Program.reject (advice args r) (Arguments.calledAs? args) r), start) := by
      simp only [run, Program.run, hr]
    rw [hrun]
    exact ⟨rfl, _, rfl, reject_request, reject_mistake⟩
  · intro i hi load
    have hload : Loads i.directory? start load.1 load.2 := loadGlobal_loads _ _
    have hloaded : (loadGlobal i.directory?).runOn start = load := rfl
    obtain ⟨hcontacts, hfiles⟩ := hload.frame
    rcases load with ⟨f | u, m'⟩
    · have hrun : run = _ := run_of_invocation net advice hi
      rw [hloaded] at hrun
      rw [hrun]
      exact ⟨fun _ _ => ⟨rfl, hcontacts, hload.cell_of_error, rfl⟩, nofun⟩
    · refine ⟨nofun, fun _ => ?_⟩
      obtain ⟨dir, text, s, hdir, hread, hparse, hcell⟩ := hload.holds
      obtain ⟨contacts, result, hconducts, hend, hmore, hfixed, hkept⟩ :=
        run_of_loaded net advice hi hloaded hcell
      rw [hcontacts, List.nil_append] at hmore
      subst hmore
      refine ⟨dir, text, s, hdir, hread, hparse, hfixed, hkept, result, hconducts, ?_, ?_, ?_, ?_⟩
      · rintro reply rfl
        exact hend
      · rintro rfl
        exact hend
      · rintro rfl
        exact hend
      · rintro f rfl
        exact hend

/-- A run that is asked for its version, one that takes the defaults from an empty file, and one that
calls on the port that it names, for the time that its file says. -/
theorem run_goes_by_settings_file :
    let asking := ["member-rpc", "-V"].map Utf8.bytes
    let serving := ["member-rpc", "-d", "d", "serve"].map Utf8.bytes
    let calling := ["member-rpc", "-d", "d", "version", "-a", "h", "-p", "7"].map Utf8.bytes
    let empty : FileSystem := { entries := [(["d"], .directory), (["d", fileName], .file [])] }
    let files : FileSystem := { entries := [(["d"], .directory),
      (["d", fileName], .file (Utf8.bytes "client.connect_timeout_secs = 3"))] }
    let net : Network :=
      { Network.empty with dial := fun _ _ => .connected, peer? := fun _ => some (.both {} {}) }
    (∃ e, (Program.run .empty asking { files := empty }).1 = .ended e ∧ e.code = 0) ∧
      (Program.run .empty asking { files := empty }).2 = { files := empty } ∧
      (Program.run .empty serving { files := empty }).2.cell = ⟨some {}⟩ ∧
      (∃ uri timeout,
        (Program.run net calling { files }).2.contacts = [.dialed uri timeout] ∧
        uri.host = "h".toList ∧ uri.port = 7 ∧ timeout.secs = 3 ∧ timeout.nanos = 0) ∧
      (Program.run net calling { files }).1 = .ended ⟨0, "1.0.0\n", ""⟩ := by
  intro asking serving calling empty files net
  have hasking : Arguments.parse asking = .error (.versionRequested .top) := by decide +kernel
  have hserving : Arguments.parse serving = .ok ⟨some "d", .serve⟩ := by decide +kernel
  have hcalling : Arguments.parse calling = .ok ⟨some "d", .version "h" (some 7)⟩ := by
    decide +kernel
  have hdefaults : parse "" = .ok {} := rfl
  have hsettings : parse "client.connect_timeout_secs = 3" =
      .ok { client := { connectTimeoutSecs := 3 } } := by rfl
  obtain ⟨hstart, e, he, hcode, -⟩ :=
    (run_ends_at_first_failure .empty asking empty none fun _ _ => "").1 _ hasking
  refine ⟨⟨e, he, hcode (.inr ⟨_, rfl⟩)⟩, hstart, ?_, ?_⟩
  · obtain ⟨m', hload, -, -, hunique⟩ :=
      loadGlobal_listed (m := { files := empty }) rfl rfl rfl (Utf8.text?_bytes "") hdefaults
    obtain ⟨dir, text, s, hdir, htext, hparse, hcell, -⟩ :=
      ((run_ends_at_first_failure .empty serving empty none fun _ _ => "").2 _ hserving).2
        (by rw [hload])
    rw [hload] at htext
    obtain rfl := hunique dir text s hdir htext hparse
    exact hcell
  · obtain ⟨m', hload, -, -, hunique⟩ :=
      loadGlobal_listed (m := { files }) rfl rfl rfl (Utf8.text?_bytes _) hsettings
    obtain ⟨dir, text, s, hdir, htext, hparse, -, -, result, hconducts, hreply, -⟩ :=
      ((run_ends_at_first_failure net calling files none fun _ _ => "").2 _ hcalling).2
        (by rw [hload])
    rw [hload] at htext
    obtain rfl := hunique dir text s hdir htext hparse
    have htarget : Client.target? "h:7" = .ok ⟨"h:7".toList, by decide⟩ := rfl
    have hkeeps : KeepsHost ['h'] := ⟨by simp [Authority.isEnd], .inl (by simp)⟩
    obtain ⟨timeout, hcontacts, hdials⟩ :=
      hconducts.dialed (c := ⟨"h", some 7, .getVersion, ""⟩) rfl htarget
    obtain ⟨hhost, hport⟩ := hdials.asked hkeeps
    have hversion : RemoteCall.reply ⟨"h", some 7, .getVersion, ""⟩ net
        ⟨"h:7".toList, by decide⟩ = .ok "1.0.0" := by
      decide +kernel
    refine ⟨⟨_, timeout, hcontacts, hhost, hport, hdials.secs, hdials.nanos⟩, hreply "1.0.0" ?_⟩
    rw [hconducts.eq_reply (c := ⟨"h", some 7, .getVersion, ""⟩) rfl htarget fun _ => rfl, hversion]
    rfl

/-- A slash ends the host that is dialed, and the port is another one than the run was given. -/
theorem run_dials_before_slash :
    let args := ["member-rpc", "-d", "d", "send", "-a", "127.0.0.1/x", "-p", "50051", "hi"].map
      Utf8.bytes
    let files : FileSystem := { entries := [(["d"], .directory), (["d", fileName], .file [])] }
    Arguments.parse args = .ok ⟨some "d", .send "127.0.0.1/x" (some 50051) "hi"⟩ ∧
      ∃ uri timeout, (Program.run .empty args { files }).2.contacts = [.dialed uri timeout] ∧
        uri.host = "127.0.0.1".toList ∧ uri.port = 80 := by
  intro args files
  have hargs : Arguments.parse args = .ok ⟨some "d", .send "127.0.0.1/x" (some 50051) "hi"⟩ := by
    decide +kernel
  have hdefaults : parse "" = .ok {} := rfl
  have htarget : Client.target? "127.0.0.1/x:50051" = .ok ⟨"127.0.0.1".toList, by decide⟩ := rfl
  obtain ⟨m', hload, hcell, hbefore, -⟩ :=
    loadGlobal_listed (m := { files }) rfl rfl rfl (Utf8.text?_bytes "") hdefaults
  obtain ⟨contacts, result, hconducts, -, hcontacts, -⟩ :=
    run_of_loaded .empty (fun _ _ => "") hargs hload hcell
  obtain ⟨timeout, hdialed, -⟩ :=
    hconducts.dialed (c := ⟨"127.0.0.1/x", some 50051, .send, "hi"⟩) rfl htarget
  rw [hbefore, hdialed] at hcontacts
  exact ⟨hargs, _, timeout, hcontacts, by decide, by decide⟩

end MemberRelay.Proofs
