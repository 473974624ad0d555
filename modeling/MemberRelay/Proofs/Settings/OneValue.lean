import MemberRelay.Proofs.Actions
import MemberRelay.Run
import MemberRelay.Settings.Directory

/-!
# One value for a whole run

The first operation on the settings of a run fixes them: a write fixes what it writes, and a read
fixes the defaults. From then on each write fails, each read sees that one value, and nothing changes
it.
-/

namespace MemberRelay.Proofs

/-- What the parts of a program do with the settings of a run. -/
inductive SettingsUse where
  | fix (s : Settings)
  | rpc
  | client
  | isEnabled
  | server
  | clientSettings (port? : Option UInt16)

inductive SettingsAnswer where
  | fixed
  | rpc (s : RpcSettings)
  | client (s : ClientSettings)
  | enabled (b : Bool)
  | server (s : Server)

namespace SettingsUse

def action : SettingsUse → Action SettingsAnswer
  | fix s => do
    Settings.fix s
    return .fixed
  | rpc => return .rpc (← Action.settings).rpc
  | client => return .client (← Action.settings).client
  | isEnabled => return .enabled (← Server.isEnabled)
  | server => return .server (← Server.ofGlobal)
  | clientSettings port? => return .client (← Run.clientSettings port?)

/-- One use after another. A use that fails does not keep the next one from happening. -/
def runAll : List SettingsUse → Machine → List (Except Failure SettingsAnswer) × Machine
  | [], m => ([], m)
  | u :: us, m =>
    let first := u.action.runOn m
    let rest := runAll us first.2
    (first.1 :: rest.1, rest.2)

/-- The value that a use fixes when it is the first one. -/
def fixes : SettingsUse → Settings
  | fix s => s
  | _ => {}

/-- The answer where the settings are fixed to a value. -/
def answer (v : Settings) : SettingsUse → Except Failure SettingsAnswer
  | fix _ => .error (.config "global settings already initialized")
  | rpc => .ok (.rpc v.rpc)
  | client => .ok (.client v.client)
  | isEnabled => .ok (.enabled v.rpc.enabled)
  | server => .ok (.server ⟨v.rpc.listenAddress, v.rpc.port⟩)
  | clientSettings none => .ok (.client v.client)
  | clientSettings (some p) => .ok (.client { v.client with port := p })

/-- The answer where nothing was written or read before. -/
def firstAnswer : SettingsUse → Except Failure SettingsAnswer
  | fix _ => .ok .fixed
  | u => u.answer {}

variable {v : Settings} {m : Machine}

/-! ### One use -/

lemma action_fixed (u : SettingsUse) (h : m.cell = ⟨some v⟩) :
    u.action.runOn m = (u.answer v, m) := by
  obtain ⟨files, home?, cell, journal, contacts⟩ := m
  cases h
  cases u with
  | clientSettings port? => cases port? <;> rfl
  | _ => rfl

lemma action_first (u : SettingsUse) (h : m.cell = {}) :
    u.action.runOn m = (u.firstAnswer, { m with cell := ⟨some u.fixes⟩ }) := by
  obtain ⟨files, home?, cell, journal, contacts⟩ := m
  cases h
  cases u with
  | clientSettings port? => cases port? <;> rfl
  | _ => rfl

/-! ### Many uses -/

lemma runAll_fixed (us : List SettingsUse) (h : m.cell = ⟨some v⟩) :
    runAll us m = (us.map (answer v), m) := by
  induction us with
  | nil => rfl
  | cons u us ih => simp only [runAll, action_fixed u h, ih, List.map_cons]

lemma runAll_first (u : SettingsUse) (us : List SettingsUse) (h : m.cell = {}) :
    runAll (u :: us) m =
      (u.firstAnswer :: us.map (answer u.fixes), { m with cell := ⟨some u.fixes⟩ }) := by
  have hrest := runAll_fixed (m := { m with cell := ⟨some u.fixes⟩ }) us rfl
  simp only [runAll, action_first u h, hrest]

/-- A write is answered well just where it comes first. -/
lemma fix_succeeds_iff {u : SettingsUse} {us : List SettingsUse} {s : Settings} {k : Nat}
    (h : (u :: us)[k]? = some (fix s)) :
    (u.firstAnswer :: us.map (answer v))[k]? = some (.ok .fixed) ↔ k = 0 := by
  cases k with
  | zero =>
    rw [List.getElem?_cons_zero] at h
    rw [Option.some.inj h]
    exact iff_of_true rfl rfl
  | succ k =>
    rw [List.getElem?_cons_succ] at h
    rw [List.getElem?_cons_succ, List.getElem?_map, h]
    exact iff_of_false nofun (Nat.succ_ne_zero k)

end SettingsUse

open SettingsUse

/-- From the first use of the settings on a run holds one value, whatever uses follow: that of the
write, or the defaults if it was a read. Every later write fails, every read is answered from that
value, and nothing else in the machine changes. -/
theorem uses_share_one_value (u : SettingsUse) (us : List SettingsUse) (m : Machine) :
    let run := runAll (u :: us) { m with cell := {} }
    run.1 = u.firstAnswer :: us.map (answer u.fixes) ∧
      (∀ k, (runAll ((u :: us).take (k + 1)) { m with cell := {} }).2 =
        { m with cell := ⟨some u.fixes⟩ }) ∧
      run.2 = { m with cell := ⟨some u.fixes⟩ } ∧
      ∀ k s, (u :: us)[k]? = some (fix s) → (run.1[k]? = some (.ok .fixed) ↔ k = 0) := by
  intro run
  have hrun : run = (u.firstAnswer :: us.map (answer u.fixes), { m with cell := ⟨some u.fixes⟩ }) :=
    runAll_first u us rfl
  refine ⟨by rw [hrun], ?_, by rw [hrun], ?_⟩
  · intro k
    rw [List.take_succ_cons, runAll_first u _ rfl]
  · intro k s hk
    rw [hrun]
    exact fix_succeeds_iff hk

/-- A read with a port of its own before two other uses: the write comes too late, and the port is
not kept. -/
theorem read_before_write :
    (runAll [clientSettings (some 7000), fix { rpc := { enabled := false } }, client] {}).1 =
      [.ok (.client { port := 7000 }), .error (.config "global settings already initialized"),
        .ok (.client {})] :=
  (uses_share_one_value (clientSettings (some 7000))
    [fix { rpc := { enabled := false } }, client] {}).1

end MemberRelay.Proofs
