import Mend.Diff.Subsequence
import Mend.Fix
import Mend.Patch.Locate
import Mend.Language

/-!
# The patched text

A fix is carried out on the text as it is now. The edit script from the code that it replaces to the
suggested code is replayed on the lines where that code was found: lines that the fix keeps come
from the file, lines that it removes must still be there, and new lines take on the file's
indentation. Where that cannot be done, the text stays and a comment at its end says what to do by
hand.
-/

namespace Mend.Patch

/-- A line with the indentation `old` replaced by `new`. A line indented otherwise stays. -/
def reindent (old new line : List Char) : List Char :=
  if old.isPrefixOf line && old != new then new ++ line.drop old.length else line

/-- Replay an edit script on the lines of a window. -/
def replay (old new : List Char) : List (List Char) → List (Diff.Edit (List Char)) →
    Option (List (List Char))
  | _, [] => some []
  | window, .insert line :: edits =>
    (replay old new window edits).map (reindent old new line :: ·)
  | w :: window, .keep _ :: edits => (replay old new window edits).map (w :: ·)
  | w :: window, .delete line :: edits => if agree w line then replay old new window edits else none
  | [], .keep _ :: _ => none
  | [], .delete _ :: _ => none

/-- The lines that take the place of a window when `replaced` becomes `suggested`; nothing if a line
to be removed is not there any more. -/
def merge (window replaced suggested : List (List Char)) : Option (List (List Char)) := do
  let old := Text.indentation (← replaced.head?)
  let new := Text.indentation (← window.head?)
  replay old new window (Diff.shortest replaced suggested)

/-- What ends a line. -/
def terminator (line : List Char) : List Char := line.drop (Text.stripTerminator line).length

/-- Lines with terminators: `eol` after each but the last, which has `last`. -/
def terminated (eol last : List Char) : List (List Char) → List (List Char)
  | [] => []
  | [line] => [line ++ last]
  | line :: lines => (line ++ eol) :: terminated eol last lines

/-- The text with `count` lines from line `start` on replaced. The new lines end as the text's lines
do, and the last of them as the last line that they replace. -/
def spliceLines (content : List Char) (start count : Nat) (replacement : List (List Char)) :
    List Char :=
  let raw := Text.pieces content
  let eol := (Text.lineEnding content).toList
  let last := match raw[start + count - 1]? with
    | some line => terminator line
    | none => eol
  (raw.take start ++ terminated eol last replacement ++ raw.drop (start + count)).flatten

/-- The lines of the comment that says what to do by hand. -/
def manualLines (fix : Fix) : List (List Char) :=
  let listed (code : String) := (Text.rows code.toList).map ("    ".toList ++ ·)
  [(s!"appmedic: manual fix required near line {fix.line} (" ++ fix.template ++ ", fix " ++ fix.id
      ++ ")").toList, fix.title.toList, "replace:".toList]
    ++ listed fix.replacedCode ++ ["with:".toList] ++ listed fix.suggestedCode

/-- A line of a comment. -/
def commentLine (language : Language) (text : List Char) : List Char :=
  language.commentPrefix.toList ++ (if text.isEmpty then [] else ' ' :: text)

/-- The text with a comment at its end that says what to do by hand. -/
def manualComment (content : List Char) (fix : Fix) (language : Language) : List Char :=
  let eol := (Text.lineEnding content).toList
  let completed :=
    if content.isEmpty || content.getLast? == some '\n' then content else content ++ eol
  completed ++ (manualLines fix).flatMap fun line => commentLine language line ++ eol

/-- The text after a fix, and how the fix was placed. -/
def patched (locator : Locator) (content : List Char) (fix : Fix) (language : Language) :
    List Char × Placement :=
  let lines := (Text.pieces content).map Text.stripTerminator
  let replaced := Text.rows fix.replacedCode.toList
  let suggested := Text.rows fix.suggestedCode.toList
  let placed (start : Nat) (placement : Placement) :=
    match merge ((lines.drop start).take replaced.length) replaced suggested with
    | some merged => (spliceLines content start replaced.length merged, placement)
    | none => (manualComment content fix language, .manualComment)
  match locator.locate lines replaced fix.line with
  | .exact start => placed start .exact
  | .anchored start _ => placed start .anchored
  | .unresolved => (manualComment content fix language, .manualComment)

end Mend.Patch
