import MemberRelay.Failure
import MemberRelay.Settings.Basic

/-!
The settings that hold for a whole run. They are fixed by the first of two events: they are set, or
they are read, which fixes the defaults.
-/

namespace MemberRelay

/-- Holds the settings once they are fixed. -/
structure Cell where
  value? : Option Settings := none
  deriving DecidableEq, Repr

namespace Cell

/-- Sets the settings, unless they are fixed. -/
def set (c : Cell) (s : Settings) : Except Failure Cell :=
  match c.value? with
  | none => .ok ⟨some s⟩
  | some _ => .error (.config "global settings already initialized")

/-- The settings as a reader sees them. -/
def get (c : Cell) : Settings := c.value?.getD {}

/-- The cell after it was read. -/
def fixed (c : Cell) : Cell := ⟨some c.get⟩

theorem get_fixed (c : Cell) : c.fixed.get = c.get := rfl

theorem fixed_fixed (c : Cell) : c.fixed.fixed = c.fixed := rfl

end Cell

end MemberRelay
