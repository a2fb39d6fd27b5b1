import Mend.Count
import Mend.Rule.Context

/-!
# The lines around an issue

A fix is made from a few lines of a file as it is now: some before the issue's line, the focus, and
some after it. Lines count from one and are kept without their terminators.
-/

namespace Mend

/-- A few lines of a file around one of them. -/
structure Window where
  path : Path
  language : Language
  /-- The number of the first line. -/
  firstLine : Nat
  lines : List (List Char)
  /-- The number of the line that matters. -/
  focus : Nat
  /-- The terminator that the file's lines have. -/
  lineEnding : String
  deriving Repr, DecidableEq

namespace Window

/-- Lines joined by line feeds. -/
def joined (lines : List (List Char)) : List Char := List.intercalate ['\n'] lines

/-- The lines of a file from `before` lines before the focus to `after` lines after it. A line
number zero means the first line. How many lines there are is a count. -/
def of (path : Path) (content : String) (focus before after : Nat) : Window :=
  let source := content.toList
  let focus := max focus 1
  let firstLine := max (focus - before) 1
  { path
    language := path.language?.getD .javaScript
    firstLine
    lines := (((Text.pieces source).drop (firstLine - 1)).take
      (Count.wrapped (focus - firstLine + 1 + after))).map Text.stripTerminator
    focus
    lineEnding := Text.lineEnding source }

/-- The line of the file with a number, if the window shows it. -/
def line? (w : Window) (n : Nat) : Option (List Char) :=
  if n < w.firstLine then none else w.lines[n - w.firstLine]?

/-- The line that matters, if the file has it. -/
def focusText? (w : Window) : Option (List Char) := w.line? w.focus

/-- The number of the last line; of the first one if there are no lines. -/
def lastLine (w : Window) : Nat := w.firstLine + (w.lines.length - 1)

/-- The lines from a number on, joined. -/
def tailFrom? (w : Window) (n : Nat) : Option (List Char) :=
  if n < w.firstLine || w.lines.length ≤ n - w.firstLine then none
  else some (joined (w.lines.drop (n - w.firstLine)))

/-- The lines from one number to another, if the window shows them all; none if the numbers run
backwards. -/
def span? (w : Window) (first last : Nat) : Option (List (List Char)) :=
  if last < first then some []
  else if first < w.firstLine || w.firstLine + w.lines.length ≤ last then none
  else some ((w.lines.drop (first - w.firstLine)).take (last + 1 - first))

end Window

end Mend
