import Mathlib.Tactic.Common
import MemberRelay.Client
import MemberRelay.Proofs.Actions
import MemberRelay.Proofs.Wire.RoundTrip

/-!
# Calls from many callers

One server hosts both services. Callers issue calls at any time; the encoded requests and the
encoded answers travel on their own, so the server may take them in any order and callers may get
their answers in any order. Each call is answered once, and its answer hangs on nothing but the call.
-/

namespace MemberRelay.Proofs
open Wire

/-- A call through a client, or straight to a service. -/
inductive Call where
  | send (client : Client) (payload : String)
  | getVersion (client : Client)
  | sendDirect (request : Envelope String)
  | getVersionDirect (request : Envelope Unit)
  /-- A look at what the second service knows of members. -/
  | members

/-- What a caller gets, through a client or from a service. -/
inductive Outcome where
  | remote (result : Except Failure String)
  | direct (result : Except Status (Envelope String))
  | members (entries : List (String × String))

/-- An encoded request on its way to the server. -/
structure Request where
  call : Nat
  method : Method
  body : List UInt8

/-- An encoded answer on its way to the caller. -/
structure Response where
  call : Nat
  method : Method
  result : Except Status (List UInt8)

/-- An answer that reached its caller. -/
structure Answer where
  call : Nat
  outcome : Outcome

/-- A server, the calls so far, and what is on its way. The number of a call is its place among the
issued ones. -/
structure Traffic where
  json : JsonService := {}
  member : MemberService := {}
  issued : List Call := []
  requests : List Request := []
  responses : List Response := []
  answers : List Answer := []

namespace Traffic

def hosting (t : Traffic) : Hosting := .both t.json t.member

/-- Puts an encoded request of the newest call on its way. -/
def post (t : Traffic) (m : Method) (text : String) : Traffic :=
  { t with requests := t.requests ++ [⟨t.issued.length, m, m.request.encode text⟩] }

/-- Answers the newest call at once. -/
def settle (t : Traffic) (outcome : Outcome) : Traffic :=
  { t with answers := t.answers ++ [⟨t.issued.length, outcome⟩] }

/-- A new call. A service that is called straight answers at once. -/
def issue (t : Traffic) (c : Call) : Traffic :=
  let t' := match c with
    | .send _ payload => t.post .send payload
    | .getVersion _ => t.post .getVersion ""
    | .sendDirect request => t.settle (.direct (t.json.send request).result)
    | .getVersionDirect request => t.settle (.direct (t.member.getVersion request).result)
    | .members => t.settle (.members t.member.members)
  { t' with issued := t.issued ++ [c] }

/-- One thing that happens: a call, the server's work on one of the requests, or the arrival of one
of the answers. -/
inductive Step : Traffic → Traffic → Prop where
  | issue (t : Traffic) (c : Call) : Step t (t.issue c)
  | serve (t : Traffic) {before after : List Request} {r : Request}
      (h : t.requests = before ++ r :: after) :
      Step t { t with
        requests := before ++ after
        responses := t.responses ++
          [⟨r.call, r.method, (t.hosting.answer r.method.path r.body).1⟩] }
  | deliver (t : Traffic) {before after : List Response} {r : Response}
      (h : t.responses = before ++ r :: after) :
      Step t { t with
        responses := before ++ after
        answers := t.answers ++ [⟨r.call, .remote (Client.accept r.method r.result)⟩] }

/-- Any number of steps, in any order. -/
inductive Run : Traffic → Traffic → Prop where
  | refl (t : Traffic) : Run t t
  | step {t t' t'' : Traffic} : Step t t' → Run t' t'' → Run t t''

end Traffic

/-- The greatest number of bytes in a payload that is handed back. -/
def maxPayload : Nat := 4194299

/-- What comes of a payload. -/
def sendResult (payload : String) : Except Failure String :=
  if payload.utf8ByteSize ≤ maxPayload then .ok payload
  else .error (.call (tooLarge (Message.jsonRequest.encode payload).length))

/-- What comes of a call, whatever other calls there are. -/
def Call.outcome : Call → Outcome
  | .send _ payload => .remote (sendResult payload)
  | .getVersion _ => .remote (.ok "1.0.0")
  | .sendDirect request => .direct (.ok ⟨request.message, []⟩)
  | .getVersionDirect _ => .direct (.ok ⟨"1.0.0", []⟩)
  | .members => .members []

/-! ### One call -/

/-- The length of a payload takes four bytes from `128 ^ 3` on, and the key takes one. -/
lemma length_encode_le_iff {m : Message} (hm : m.field?.isSome) (s : String) :
    (m.encode s).length ≤ maxMessage ↔ s.utf8ByteSize ≤ maxPayload := by
  by_cases hs : s = ""
  · rw [hs, encode_empty]
    decide
  · have hlen := encode_length hm hs
    have hthree := varint_encode_length_le_iff 2 s.utf8ByteSize
    have hfour := varint_encode_length_le_iff 3 s.utf8ByteSize
    have hpow : Nat.pow 128 (2 + 1) = 2097152 ∧ Nat.pow 128 (3 + 1) = 268435456 := by decide
    rw [hpow.1] at hthree
    rw [hpow.2] at hfour
    rw [hlen, maxMessage, maxPayload]
    omega

lemma receive_encode {m : Message} (hm : m.field?.isSome) (s : String) :
    receive m (m.encode s) =
      if s.utf8ByteSize ≤ maxPayload then .ok s else .error (tooLarge (m.encode s).length) := by
  have hle := length_encode_le_iff hm s
  by_cases h : s.utf8ByteSize ≤ maxPayload
  · have hmax : maxPayload < UInt64.size := by decide
    rw [receive, if_neg (Nat.not_lt.2 (hle.2 h)), if_pos h, decode_encode hm (by omega)]
    rfl
  · rw [receive, if_pos (Nat.not_le.1 (mt hle.1 h)), if_neg h]

variable (json : JsonService) (member : MemberService)

lemma both_answer_send (payload : String) :
    Client.accept .send ((Hosting.both json member).answer Method.send.path
      (Method.send.request.encode payload)).1 = sendResult payload := by
  have hpath : Method.ofPath? Method.send.path = some .send := by decide
  have hreq := receive_encode (m := .jsonRequest) rfl payload
  have hresp := receive_encode (m := .jsonResponse) rfl payload
  by_cases h : payload.utf8ByteSize ≤ maxPayload
  · rw [if_pos h] at hreq hresp
    simp [Hosting.answer, hpath, Hosting.handler?, Hosting.both, Method.request, hreq,
      JsonService.send, Client.accept, Method.response, hresp, sendResult, h, Except.bind,
      Except.map, Except.mapError]
  · rw [if_neg h] at hreq
    simp [Hosting.answer, hpath, Hosting.handler?, Hosting.both, Method.request, hreq,
      Client.accept, sendResult, h, Except.bind, Except.mapError]

lemma both_answer_getVersion (text : String) :
    Client.accept .getVersion ((Hosting.both json member).answer Method.getVersion.path
      (Method.getVersion.request.encode text)).1 = .ok "1.0.0" := by
  have hpath : Method.ofPath? Method.getVersion.path = some .getVersion := by decide
  have hreq : receive .versionRequest (Message.versionRequest.encode text) = .ok "" := rfl
  have hresp := receive_encode (m := .versionResponse) rfl "1.0.0"
  rw [if_pos (by decide)] at hresp
  simp [Hosting.answer, hpath, Hosting.handler?, Hosting.both, Method.request, hreq,
    MemberService.getVersion, MemberService.version, Client.accept, Method.response, hresp,
    Except.bind, Except.map, Except.mapError]

lemma call_runOn {net : Network} {c : Client} {peer : Hosting} (h : net.peer? c.target = some peer)
    (method : Method) (text : String) (m : Machine) :
    ((c.call net method text).runOn m).1 =
      Client.accept method (peer.answer method.path (method.request.encode text)).1 := by
  rcases hanswer : peer.answer method.path (method.request.encode text) with ⟨answer, events⟩
  have hcall : c.call net method text =
      (events.forM Action.report >>= fun _ => Action.ofExcept (Client.accept method answer)) := by
    rw [Client.call, h]
    simp only [hanswer]
  rw [hcall, bind_runOn, reports_runOn]
  simp only [ofExcept_runOn]

/-! ### All calls -/

namespace Traffic

/-- The numbers of the calls that are on their way or answered. -/
def numbers (t : Traffic) : List Nat :=
  t.requests.map (·.call) ++ (t.responses.map (·.call) ++ t.answers.map (·.call))

/-- Each call is in one place, and what is there for it leads to its outcome. -/
structure Sound (t : Traffic) : Prop where
  members : t.member.members = []
  perm : t.numbers.Perm (List.range t.issued.length)
  requests : ∀ r ∈ t.requests, ∃ c, t.issued[r.call]? = some c ∧
    .remote (Client.accept r.method (t.hosting.answer r.method.path r.body).1) = c.outcome
  responses : ∀ r ∈ t.responses, ∃ c, t.issued[r.call]? = some c ∧
    .remote (Client.accept r.method r.result) = c.outcome
  answers : ∀ a ∈ t.answers, ∃ c, t.issued[a.call]? = some c ∧ a.outcome = c.outcome

lemma sound_empty : Sound {} := by
  refine ⟨rfl, List.Perm.refl _, ?_, ?_, ?_⟩ <;>
  · intro x hx
    exact absurd hx List.not_mem_nil

lemma issued_append {t : Traffic} {n : Nat} {P : Call → Prop}
    (h : ∃ c, t.issued[n]? = some c ∧ P c) (c : Call) :
    ∃ d, (t.issued ++ [c])[n]? = some d ∧ P d := by
  obtain ⟨d, hd, hP⟩ := h
  have hn := (List.getElem?_eq_some_iff.1 hd).1
  exact ⟨d, by rw [List.getElem?_append_left hn, hd], hP⟩

lemma issued_newest (t : Traffic) (c : Call) : (t.issued ++ [c])[t.issued.length]? = some c := by
  simp

/-- The newest number joins those before it. -/
lemma perm_newest {xs ys : List Nat} {n : Nat} (h : xs.Perm (List.range n))
    (hys : ys.Perm (xs ++ [n])) : ys.Perm (List.range (n + 1)) := by
  rw [List.range_succ]
  exact hys.trans (h.append_right [n])

/-- What is taken out of one list and put at the end of another is still there once. -/
lemma perm_move {α : Type} (xs ys zs ws : List α) (x : α) :
    (xs ++ ys ++ (zs ++ [x] ++ ws)).Perm (xs ++ x :: ys ++ (zs ++ ws)) := by
  classical
  rw [List.perm_iff_count]
  intro y
  simp only [List.count_append, List.count_cons, List.count_nil]
  omega

lemma issue_post {t : Traffic} (h : t.Sound) (c : Call) (m : Method) (text : String)
    (hc : .remote (Client.accept m (t.hosting.answer m.path (m.request.encode text)).1) =
      c.outcome) : Sound { t.post m text with issued := t.issued ++ [c] } := by
  refine ⟨h.members, ?_, ?_, ?_, ?_⟩
  · rw [List.length_append, List.length_singleton]
    apply perm_newest h.perm
    simp only [numbers, post, List.map_append, List.map_singleton, List.append_assoc]
    apply List.Perm.append_left
    exact List.perm_append_comm.trans (by rw [List.append_assoc])
  · have hnewest := And.intro (issued_newest t c) hc
    exact List.forall_mem_append.2 ⟨fun r hr => issued_append (h.requests r hr) c,
      List.forall_mem_singleton.2 ⟨c, hnewest⟩⟩
  · exact fun r hr => issued_append (h.responses r hr) c
  · exact fun a ha => issued_append (h.answers a ha) c

lemma issue_settle {t : Traffic} (h : t.Sound) (c : Call) (outcome : Outcome)
    (hc : outcome = c.outcome) : Sound { t.settle outcome with issued := t.issued ++ [c] } := by
  refine ⟨h.members, ?_, ?_, ?_, ?_⟩
  · rw [List.length_append, List.length_singleton]
    apply perm_newest h.perm
    simp only [numbers, settle, List.map_append, List.map_singleton, List.append_assoc]
    exact List.Perm.refl _
  · exact fun r hr => issued_append (h.requests r hr) c
  · exact fun r hr => issued_append (h.responses r hr) c
  · have hnewest := And.intro (issued_newest t c) hc
    exact List.forall_mem_append.2 ⟨fun a ha => issued_append (h.answers a ha) c,
      List.forall_mem_singleton.2 ⟨c, hnewest⟩⟩

lemma issue_sound {t : Traffic} (h : t.Sound) (c : Call) : (t.issue c).Sound := by
  cases c with
  | send client payload =>
    exact issue_post h _ _ _ (congrArg _ (both_answer_send _ _ payload))
  | getVersion client =>
    exact issue_post h _ _ _ (congrArg _ (both_answer_getVersion _ _ ""))
  | sendDirect request => exact issue_settle h _ _ rfl
  | getVersionDirect request => exact issue_settle h _ _ rfl
  | members => exact issue_settle h _ _ (congrArg _ h.members)

/-- What holds of a list holds of it without one member, and of that member. -/
lemma forall_mem_around {α : Type} {P : α → Prop} {xs ys zs : List α} {x : α}
    (h : ∀ y ∈ zs, P y) (hzs : zs = xs ++ x :: ys) : (∀ y ∈ xs ++ ys, P y) ∧ P x := by
  rw [hzs, List.forall_mem_append, List.forall_mem_cons] at h
  exact ⟨List.forall_mem_append.2 ⟨h.1, h.2.2⟩, h.2.1⟩

lemma step_sound {t t' : Traffic} (hstep : Step t t') (h : t.Sound) : t'.Sound := by
  cases hstep with
  | issue c => exact issue_sound h c
  | @serve before after r hr =>
    obtain ⟨hothers, hserved⟩ := forall_mem_around h.requests hr
    refine ⟨h.members, ?_, hothers, ?_, h.answers⟩
    · have hmove := perm_move (before.map (·.call)) (after.map (·.call))
        (t.responses.map (·.call)) (t.answers.map (·.call)) r.call
      have hperm := h.perm
      simp only [numbers, hr, List.map_append, List.map_cons, List.map_nil] at hperm ⊢
      exact hmove.trans hperm
    · exact List.forall_mem_append.2 ⟨h.responses, List.forall_mem_singleton.2 hserved⟩
  | @deliver before after r hr =>
    obtain ⟨hothers, hdelivered⟩ := forall_mem_around h.responses hr
    refine ⟨h.members, ?_, h.requests, hothers, ?_⟩
    · have hmove := perm_move (before.map (·.call)) (after.map (·.call))
        (t.answers.map (·.call)) [] r.call
      have hperm := h.perm
      simp only [numbers, hr, List.map_append, List.map_cons, List.map_nil,
        List.append_nil] at hmove hperm ⊢
      exact (hmove.append_left _).trans hperm
    · exact List.forall_mem_append.2 ⟨h.answers, List.forall_mem_singleton.2 hdelivered⟩

lemma run_trans {t t' t'' : Traffic} (h : Run t t') (h' : Run t' t'') : Run t t'' := by
  induction h with
  | refl => exact h'
  | step hstep _ ih => exact .step hstep (ih h')

lemma run_sound {t t' : Traffic} (hrun : Run t t') (h : t.Sound) : t'.Sound := by
  induction hrun with
  | refl => exact h
  | step hstep _ ih => exact ih (step_sound hstep h)

/-- What is on its way can arrive: a request takes two more steps, a response one. -/
lemma run_quiet (t : Traffic) :
    ∃ t', Run t t' ∧ t'.issued = t.issued ∧ t'.requests = [] ∧ t'.responses = [] := by
  induction hn : 2 * t.requests.length + t.responses.length using Nat.strongRecOn
    generalizing t with
  | ind n ih =>
    cases hreq : t.requests with
    | cons r requests =>
      obtain ⟨t', hrun, hissued, hquiet⟩ := ih _ (by
        rw [← hn, hreq]
        simp
        omega) { t with
          requests := [] ++ requests
          responses := t.responses ++
            [⟨r.call, r.method, (t.hosting.answer r.method.path r.body).1⟩] } rfl
      exact ⟨t', .step (.serve t hreq) hrun, hissued, hquiet⟩
    | nil =>
      cases hresp : t.responses with
      | cons r responses =>
        obtain ⟨t', hrun, hissued, hquiet⟩ := ih _ (by
          rw [← hn, hresp]
          simp) { t with
            responses := [] ++ responses
            answers := t.answers ++ [⟨r.call, .remote (Client.accept r.method r.result)⟩] } rfl
        exact ⟨t', .step (.deliver t hresp) hrun, hissued, hquiet⟩
      | nil => exact ⟨t, .refl t, rfl, hreq, hresp⟩

lemma answers_nodup {t : Traffic} (h : t.Sound) : (t.answers.map (·.call)).Nodup := by
  have hnodup : t.numbers.Nodup := h.perm.nodup_iff.2 List.nodup_range
  exact (List.nodup_append.1 (List.nodup_append.1 hnodup).2.1).2.1

/-- Where nothing is on its way, every call has its answer. -/
lemma answer_of_quiet {t : Traffic} (h : t.Sound) (hreq : t.requests = []) (hresp : t.responses = [])
    {n : Nat} {c : Call} (hc : t.issued[n]? = some c) :
    ∃ a ∈ t.answers, a.call = n ∧ a.outcome = c.outcome := by
  have hn : n ∈ t.numbers :=
    h.perm.mem_iff.2 (List.mem_range.2 (List.getElem?_eq_some_iff.1 hc).1)
  rw [numbers, hreq, hresp] at hn
  obtain ⟨a, ha, rfl⟩ := List.mem_map.1 hn
  obtain ⟨d, hd, hout⟩ := h.answers a ha
  rw [hc] at hd
  exact ⟨a, ha, rfl, by rw [hout, Option.some.inj hd]⟩

end Traffic

/-- Whatever callers do and in whatever order requests and answers arrive, each call that is
answered is answered once and with its own outcome, each call that is not can still be, a client
that is connected gets just that outcome, and no member is ever known. -/
theorem run_answers_each_call {t : Traffic} (h : Traffic.Run {} t) :
    t.member.members = [] ∧
      (∀ a ∈ t.answers, ∃ c, t.issued[a.call]? = some c ∧ a.outcome = c.outcome) ∧
      (t.answers.map (·.call)).Nodup ∧
      (∃ t', t.Run t' ∧ t'.issued = t.issued ∧ ∀ n c, t.issued[n]? = some c →
        ∃ a ∈ t'.answers, a.call = n ∧ a.outcome = c.outcome) ∧
      (∀ (net : Network) (client : Client) (m : Machine),
        net.peer? client.target = some t.hosting →
          (∀ payload, ((client.send net payload).runOn m).1 = sendResult payload) ∧
          ((client.getVersion net).runOn m).1 = .ok "1.0.0") ∧
      ∀ payload, (Message.jsonRequest.encode payload).length ≤ 4194304 ↔
        payload.utf8ByteSize ≤ 4194299 := by
  have hsound := Traffic.run_sound h Traffic.sound_empty
  refine ⟨hsound.members, hsound.answers, Traffic.answers_nodup hsound, ?_, ?_, ?_⟩
  · obtain ⟨t', hrun, hissued, hreq, hresp⟩ := Traffic.run_quiet t
    have hsound' := Traffic.run_sound (Traffic.run_trans h hrun) Traffic.sound_empty
    refine ⟨t', hrun, hissued, ?_⟩
    intro n c hc
    exact Traffic.answer_of_quiet hsound' hreq hresp (by rw [hissued, hc])
  · intro net client m hpeer
    constructor
    · intro payload
      rw [Client.send, call_runOn hpeer]
      exact both_answer_send _ _ payload
    · rw [Client.getVersion, call_runOn hpeer]
      exact both_answer_getVersion _ _ ""
  · exact length_encode_le_iff rfl

/-- A client of a server on port 1 of `h`. -/
def clientOfH : Client := ⟨"h:1", ⟨"h:1".toList, by decide⟩⟩

/-- Two calls of a client, and one of a client on a network that leads to the server. -/
theorem two_calls_are_answered :
    let t := (({} : Traffic).issue (.getVersion clientOfH)).issue (.send clientOfH "[1,2,3]")
    Traffic.Run {} t ∧
      (∃ t', t.Run t' ∧ (∃ a ∈ t'.answers, a.call = 0 ∧ a.outcome = .remote (.ok "1.0.0")) ∧
        ∃ a ∈ t'.answers, a.call = 1 ∧ a.outcome = .remote (.ok "[1,2,3]")) ∧
      ((clientOfH.send { Network.empty with peer? := fun _ => some t.hosting } "[1,2,3]").runOn
        {}).1 = .ok "[1,2,3]" := by
  intro t
  have hrun : Traffic.Run {} t := .step (.issue _ _) (.step (.issue _ _) (.refl _))
  have hsend : sendResult "[1,2,3]" = .ok "[1,2,3]" := if_pos (by decide)
  obtain ⟨_, _, _, ⟨t', hrest, _, hanswer⟩, hclient, _⟩ := run_answers_each_call hrun
  refine ⟨hrun, ⟨t', hrest, hanswer 0 _ rfl, ?_⟩, ?_⟩
  · obtain ⟨a, ha, hcall, hout⟩ := hanswer 1 _ rfl
    exact ⟨a, ha, hcall, by rw [hout, Call.outcome, hsend]⟩
  · rw [← hsend]
    exact (hclient _ clientOfH {} rfl).1 "[1,2,3]"

end MemberRelay.Proofs
