import Mend.Count
import Mend.Diff.Subsequence
import Mend.Severity
import Mend.Text.Lines

/-!
# Diffs

A diff is a list of hunks, each a run of changed lines with some unchanged lines around it. Lines
keep their terminators, so that a diff says byte for byte what the new text is. A hunk numbers the
first line of either side from one; a side without lines gives the line before the change instead.

`hunksOf` cuts an edit script into hunks. Two changes share a hunk when the kept lines between them
would be context of both.
-/

namespace Mend.Diff

/-- How an edit script is found. -/
inductive Algorithm where
  | lookahead | lcs
  deriving Repr, DecidableEq

namespace Algorithm

/-- The name in records. -/
def name : Algorithm → String
  | lookahead => "lookahead"
  | lcs => "lcs"

/-- The algorithm with exactly this name. -/
def ofName? (s : String) : Option Algorithm := [lookahead, lcs].find? fun a => a.name == s

/-- Read an algorithm; letter case does not count and the shortest script has other names. -/
def parse (s : String) : Except UnknownName Algorithm :=
  match Text.asciiLower s with
  | "lookahead" => .ok lookahead
  | "lcs" | "myers" | "minimal" => .ok lcs
  | other => .error ⟨"diff algorithm", other⟩

/-- Read an algorithm of a record. -/
def ofData? (format : Data.Format) (d : Data) : Option Algorithm :=
  (d.toName? format).bind ofName?

/-- The edit script between two lists. -/
def script {α : Type} [DecidableEq α] : Algorithm → List α → List α → List (Edit α)
  | lookahead => Diff.lookahead
  | lcs => Diff.shortest

end Algorithm

/-- How a diff is made. -/
structure Options where
  algorithm : Algorithm := .lookahead
  /-- Unchanged lines shown on either side of a change. -/
  contextLines : Nat := 3
  deriving Repr, DecidableEq

/-- A line of a hunk, with its terminator. -/
inductive Line where
  | context (text : String)
  | removed (text : String)
  | added (text : String)
  deriving Repr, DecidableEq

namespace Line

/-- The line itself. -/
def text : Line → String
  | context t | removed t | added t => t

/-- The same kind of line with another text. -/
def withText : Line → String → Line
  | context _, t => context t
  | removed _, t => removed t
  | added _, t => added t

/-- The line of the old text, unless it is new. -/
def old? : Line → Option String
  | context t | removed t => some t
  | added _ => none

/-- The line of the new text, unless it is gone. -/
def new? : Line → Option String
  | context t | added t => some t
  | removed _ => none

end Line

/-- A run of changes with its context. -/
structure Hunk where
  oldStart : Nat
  oldLen : Nat
  newStart : Nat
  newLen : Nat
  lines : List Line
  deriving Repr, DecidableEq

/-- The lines of an edit script. Within each run of changes the removed lines come first; `added`
holds those that wait for the run to end. -/
def hunkLines (added : List Line) : List (Edit String) → List Line
  | [] => added
  | .keep t :: edits => added ++ .context t :: hunkLines [] edits
  | .delete t :: edits => .removed t :: hunkLines added edits
  | .insert t :: edits => hunkLines (added ++ [.added t]) edits

/-- The hunk of a run of edits with `o` old and `n` new lines before it. -/
def hunkOf (o n : Nat) (edits : List (Edit String)) : Hunk :=
  let oldLen := (olds edits).length
  let newLen := (news edits).length
  { oldStart := if 0 < oldLen then o + 1 else o
    oldLen
    newStart := if 0 < newLen then n + 1 else n
    newLen
    lines := hunkLines [] edits }

/-- What follows the first run of changes and the kept edits after it is shorter. -/
theorem length_later_lt (e : Edit String) (es : List (Edit String)) :
    (((e :: es).dropWhile fun e => !e.isKeep).dropWhile Edit.isKeep).length < (e :: es).length := by
  cases h : e.isKeep with
  | true =>
    have := (List.dropWhile_suffix Edit.isKeep (l := es)).length_le
    simp [h]
    omega
  | false =>
    have h₁ := (List.dropWhile_suffix (fun e : Edit String => !e.isKeep) (l := es)).length_le
    have h₂ := (List.dropWhile_suffix Edit.isKeep
      (l := es.dropWhile fun e => !e.isKeep)).length_le
    simp [h]
    omega

/-- From a change on: the edits that belong to its hunk, and the edits after them. Twice the context
is a count of its own, so that a context of at least half the counts can part changes which it should
join. -/
def takeHunk (context : Nat) : List (Edit String) → List (Edit String) × List (Edit String)
  | [] => ([], [])
  | e :: es =>
    let changes := (e :: es).takeWhile fun e => !e.isKeep
    let rest := (e :: es).dropWhile fun e => !e.isKeep
    let kept := rest.takeWhile Edit.isKeep
    let later := rest.dropWhile Edit.isKeep
    if later.isEmpty || Count.wrapped (2 * context) < kept.length then
      (changes ++ kept.take context, kept.drop context ++ later)
    else
      let (more, after) := takeHunk context later
      (changes ++ kept ++ more, after)
termination_by edits => edits.length
decreasing_by exact length_later_lt e es

/-- The hunks of an edit script with `o` old and `n` new lines before it. The fuel is the number of
edits, for a hunk takes at least one. -/
def hunksFrom (context : Nat) : Nat → Nat → Nat → List (Edit String) → List Hunk
  | 0, _, _, _ => []
  | fuel + 1, o, n, edits =>
    let quiet := edits.takeWhile Edit.isKeep
    let rest := edits.dropWhile Edit.isKeep
    if rest.isEmpty then []
    else
      let skipped := quiet.length - context
      let (body, later) := takeHunk context rest
      let run := quiet.drop skipped ++ body
      hunkOf (o + skipped) (n + skipped) run ::
        hunksFrom context fuel (o + skipped + (olds run).length) (n + skipped + (news run).length)
          later

/-- The hunks of an edit script. -/
def hunksOf (context : Nat) (edits : List (Edit String)) : List Hunk :=
  hunksFrom context edits.length 0 0 edits

/-- The difference between two texts. -/
def between (options : Options) (current modified : String) : List Hunk :=
  hunksOf options.contextLines
    (options.algorithm.script (Text.linesKept current) (Text.linesKept modified))

/-- Renumber a diff for a text that starts `lines` lines into its file. -/
def shift (lines : Nat) (hunks : List Hunk) : List Hunk :=
  hunks.map fun h => { h with oldStart := h.oldStart + lines, newStart := h.newStart + lines }

/-- How many lines a diff adds and removes. -/
def stats (hunks : List Hunk) : Nat × Nat :=
  let lines := hunks.flatMap Hunk.lines
  (lines.countP fun | .added _ => true | _ => false,
   lines.countP fun | .removed _ => true | _ => false)

end Mend.Diff
