import Mathlib.Tactic.Common
import MemberRelay.Machine

/-!
# Running actions

What an action made of parts does, told by what its parts do.
-/

namespace MemberRelay.Proofs

/-- Two steps end well if both do. -/
lemma bind_eq_ok_iff {ε α β : Type} {x : Except ε α} {f : α → Except ε β} {b : β} :
    x >>= f = .ok b ↔ ∃ a, x = .ok a ∧ f a = .ok b := by
  cases x with
  | error e =>
    constructor
    · intro h
      cases h
    · rintro ⟨a, ha, -⟩
      cases ha
  | ok a =>
    constructor
    · exact fun h => ⟨a, rfl, h⟩
    · rintro ⟨a', ha, h⟩
      cases ha
      exact h

lemma bind_eq_error_iff {ε α β : Type} {x : Except ε α} {f : α → Except ε β} {e : ε} :
    x >>= f = .error e ↔ x = .error e ∨ ∃ a, x = .ok a ∧ f a = .error e := by
  cases x with
  | error e' =>
    constructor
    · intro h
      cases h
      exact .inl rfl
    · rintro (h | ⟨a, ha, -⟩)
      · cases h
        rfl
      · cases ha
  | ok a =>
    constructor
    · exact fun h => .inr ⟨a, rfl, h⟩
    · rintro (h | ⟨a', ha, h⟩)
      · cases h
      · cases ha
        exact h

lemma map_eq_ok_iff {ε α β : Type} {f : α → β} {x : Except ε α} {b : β} :
    x.map f = .ok b ↔ ∃ a, x = .ok a ∧ f a = b := by
  cases x with
  | error e => exact ⟨nofun, nofun⟩
  | ok a =>
    constructor
    · exact fun h => ⟨a, rfl, Except.ok.inj h⟩
    · rintro ⟨a', ha, rfl⟩
      cases ha
      rfl

variable {α β : Type}

/-- The second part runs on the machine that the first one leaves, unless that fails. -/
lemma bind_runOn (x : Action α) (f : α → Action β) (m : Machine) :
    (x >>= f).runOn m = match x.runOn m with
      | (.ok a, m') => (f a).runOn m'
      | (.error e, m') => (.error e, m') := by
  change StateT.run (ExceptT.run (x >>= f)) m = _
  rw [ExceptT.run_bind, StateT.run_bind]
  rcases hx : x.runOn m with ⟨r, m'⟩
  have hrun : StateT.run (ExceptT.run x) m = (r, m') := hx
  rw [hrun]
  cases r <;> rfl

@[simp]
lemma get_runOn (m : Machine) : Action.runOn get m = (.ok m, m) := rfl

@[simp]
lemma modify_runOn (f : Machine → Machine) (m : Machine) :
    Action.runOn (modify f) m = (.ok (), f m) := rfl

@[simp]
lemma pure_runOn (a : α) (m : Machine) : Action.runOn (pure a) m = (.ok a, m) := rfl

@[simp]
lemma throw_runOn (f : Failure) (m : Machine) :
    Action.runOn (throw f : Action α) m = (.error f, m) := rfl

@[simp]
lemma report_runOn (e : Event) (m : Machine) :
    (Action.report e).runOn m = (.ok (), { m with journal := m.journal ++ [e] }) := rfl

@[simp]
lemma ofExcept_runOn (r : Except Failure α) (m : Machine) :
    (Action.ofExcept r).runOn m = (r, m) := by
  cases r <;> rfl

@[simp]
lemma ofFileResult_runOn (r : Except FileError α) (m : Machine) :
    (Action.ofFileResult r).runOn m = (r.mapError fun e => .io e.message, m) :=
  ofExcept_runOn _ m

@[simp]
lemma contact_runOn (c : Contact) (m : Machine) :
    (Action.contact c).runOn m = (.ok (), { m with contacts := m.contacts ++ [c] }) := rfl

@[simp]
lemma settings_runOn (m : Machine) :
    Action.settings.runOn m = (.ok m.cell.get, { m with cell := m.cell.fixed }) := rfl

/-- A failure is reported and passed on. -/
lemma reportingFailure_runOn (text : Failure → String) (action : Action α) (m : Machine) :
    (Action.reportingFailure text action).runOn m =
      match action.runOn m with
      | (.ok a, m') => (.ok a, m')
      | (.error f, m') => (.error f, { m' with journal := m'.journal ++ [.runFailed (text f)] }) := by
  rcases hrun : action.runOn m with ⟨f | a, m'⟩ <;>
  · have hrun' : action m = _ := hrun
    simp only [Action.reportingFailure, Action.runOn, tryCatch, tryCatchThe, MonadExceptOf.tryCatch,
      ExceptT.tryCatch, ExceptT.run, ExceptT.mk, StateT.run, bind, StateT.bind, hrun']
    rfl

lemma reports_runOn (events : List Event) (m : Machine) :
    Action.runOn (events.forM Action.report) m =
      (.ok (), { m with journal := m.journal ++ events }) := by
  induction events generalizing m with
  | nil =>
    rw [List.append_nil]
    rfl
  | cons e events ih =>
    have hstep : Action.runOn ((e :: events).forM Action.report) m =
        Action.runOn (events.forM Action.report) { m with journal := m.journal ++ [e] } := rfl
    rw [hstep, ih, List.append_assoc, List.singleton_append]

end MemberRelay.Proofs
