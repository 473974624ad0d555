import Mathlib.Data.List.Nodup
import MemberRelay.Failure
import MemberRelay.Proofs.Text.Pieces

/-!
# The lines of failures

The line that tells a failure tells it apart from all others. How a line begins gives the kind of the
failure, since no beginning is part of another, and the last bracket of a line about a call stands in
front of its code, since no name of a code holds a bracket.
-/

namespace MemberRelay.Proofs

inductive FailureKind where
  | invalidAddress
  | connect
  | call
  | serve
  | config
  | io
  deriving DecidableEq

/-- How the line of each kind of failure begins. -/
def FailureKind.opening : FailureKind → List Char
  | invalidAddress => "Invalid address: ".toList
  | connect => "Connection failed: ".toList
  | call => "Remote call failed: ".toList
  | serve => "RPC server error: ".toList
  | config => "Configuration error: ".toList
  | io => "IO error: ".toList

def kindOf : Failure → FailureKind
  | .invalidAddress _ => .invalidAddress
  | .connect _ => .connect
  | .call _ => .call
  | .serve _ => .serve
  | .config _ => .config
  | .io _ => .io

/-- What the line says after its beginning. -/
def detail : Failure → List Char
  | .invalidAddress text => text.toList
  | .connect text => text.toList
  | .call status => status.message.toList ++ [' '] ++ '(' :: (status.code.name.toList ++ [')'])
  | .serve text => text.toList
  | .config text => text.toList
  | .io text => text.toList

lemma toList_message (f : Failure) : f.message.toList = (kindOf f).opening ++ detail f := by
  cases f with
  | call status =>
    have hline : (Failure.call status).message =
        "Remote call failed: " ++ status.message ++ " (" ++ status.code.name ++ ")" := rfl
    have hopen : " (".toList = [' ', '('] := by decide
    have hclose : ")".toList = [')'] := by decide
    change _ = "Remote call failed: ".toList ++
      (status.message.toList ++ [' '] ++ '(' :: (status.code.name.toList ++ [')']))
    simp only [hline, String.toList_append, hopen, hclose, List.append_assoc, List.cons_append,
      List.nil_append]
  | _ => exact String.toList_append

section Kinds

variable {k k' : FailureKind} {xs ys : List Char}

/-- No beginning is part of another. -/
lemma eq_of_opening_part (h : k.opening <+: k'.opening) : k = k' := by
  revert h
  cases k <;> cases k' <;> decide

/-- A line is taken apart in one way only. -/
lemma parts_eq (h : k.opening ++ xs = k'.opening ++ ys) : k = k' ∧ xs = ys := by
  have hkind : k = k' := by
    have hleft : k.opening <+: k'.opening ++ ys := h ▸ List.prefix_append _ _
    rcases List.prefix_or_prefix_of_prefix hleft (List.prefix_append _ _) with hle | hle
    · exact eq_of_opening_part hle
    · exact (eq_of_opening_part hle).symm
  subst hkind
  exact ⟨rfl, List.append_cancel_left h⟩

end Kinds

section Codes

lemma name_injective {c d : Code} (h : c.name = d.name) : c = d := by
  have hall : ∀ c, c ∈ (List.range 17).map fun n => Code.ofInt n := fun c =>
    List.mem_map.2 ⟨c.toNat, by cases c <;> decide, c.ofInt_toNat⟩
  have hnodup : (((List.range 17).map fun n => Code.ofInt n).map Code.name).Nodup := by decide
  exact List.inj_on_of_nodup_map hnodup (hall c) (hall d) h

lemma bracket_not_mem_name (c : Code) : '(' ∉ c.name.toList ++ [')'] := by
  cases c <;> decide

/-- A message may look like the end of a line itself, but the code stands behind the last bracket. -/
lemma status_eq_of_detail {s t : Status} (h : detail (.call s) = detail (.call t)) : s = t := by
  obtain ⟨hmessage, hname⟩ :=
    append_cons_inj_of_not_mem_back (bracket_not_mem_name s.code) (bracket_not_mem_name t.code) h
  have hcode := name_injective (String.toList_inj.1 (List.append_cancel_right hname))
  have htext := String.toList_inj.1 (List.append_cancel_right hmessage)
  cases s
  cases t
  exact congrArg₂ Status.mk hcode htext

end Codes

lemma eq_of_kind_of_detail {f g : Failure} (hkind : kindOf f = kindOf g)
    (hdetail : detail f = detail g) : f = g := by
  cases f <;> cases g <;> cases hkind
  case call.call.refl => exact congrArg _ (status_eq_of_detail hdetail)
  all_goals exact congrArg _ (String.toList_inj.1 hdetail)

/-- The line of a failure determines its kind, the text that it carries, and the message and the code
of a call. -/
theorem message_eq_message_iff (f g : Failure) : f.message = g.message ↔ f = g := by
  constructor
  · intro h
    have hlists : (kindOf f).opening ++ detail f = (kindOf g).opening ++ detail g := by
      rw [← toList_message, ← toList_message, h]
    obtain ⟨hkind, hdetail⟩ := parts_eq hlists
    exact eq_of_kind_of_detail hkind hdetail
  · rintro rfl
    rfl

/-- A message that ends in the name of a code, and a text that begins as another line does. -/
example : (Failure.call ⟨.unknown, "down (Unavailable)"⟩).message =
      "Remote call failed: down (Unavailable) (Unknown)" ∧
    (Failure.io "Connection failed: down").message = "IO error: Connection failed: down" :=
  ⟨rfl, rfl⟩

end MemberRelay.Proofs
