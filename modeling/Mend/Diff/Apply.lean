import Mend.Diff.Hunk

/-!
# Applying a diff

A diff applies to a text when its hunks come in order, each starts inside the text, and each
context or removed line stands in the text where the hunk says.
-/

namespace Mend.Diff

/-- Why a diff cannot be read or applied. -/
inductive Error where
  /-- The text at a line of the diff is no diff. -/
  | malformed (line : Nat) (reason : String)
  /-- A line of the text is not the one that the diff expects. -/
  | mismatch (line : Nat)
  /-- A hunk starts before the end of the one before it, or past the end of the text. -/
  | outOfRange (line : Nat)
  deriving Repr, DecidableEq

namespace Error

/-- The error in words. -/
def message : Error → String
  | malformed line reason => s!"malformed diff at line {line}: " ++ reason
  | mismatch line => s!"diff does not match original at line {line}"
  | outOfRange line => s!"hunk at line {line} is out of order or past the end of the original"

end Error

/-- The number of lines of the text before a hunk. -/
def Hunk.oldIndex (h : Hunk) : Nat := if h.oldLen = 0 then h.oldStart else h.oldStart - 1

/-- Apply the lines of one hunk to the rest of a text, of which `cursor` lines are behind: the new
lines, and what is left of the text. -/
def applyLines (cursor : Nat) (lines : List String) : List Line →
    Except Error (List String × List String)
  | [] => .ok ([], lines)
  | .added t :: ls => do
    let (out, rest) ← applyLines cursor lines ls
    .ok (t :: out, rest)
  | .context t :: ls =>
    match lines with
    | l :: lines =>
      if l = t then do
        let (out, rest) ← applyLines (cursor + 1) lines ls
        .ok (t :: out, rest)
      else .error (.mismatch (cursor + 1))
    | [] => .error (.mismatch (cursor + 1))
  | .removed t :: ls =>
    match lines with
    | l :: lines =>
      if l = t then applyLines (cursor + 1) lines ls else .error (.mismatch (cursor + 1))
    | [] => .error (.mismatch (cursor + 1))

/-- Apply hunks to the rest of a text, of which `cursor` lines are behind. -/
def applyHunks (cursor : Nat) (lines : List String) : List Hunk → Except Error (List String)
  | [] => .ok lines
  | h :: hs => do
    let start := h.oldIndex
    if start < cursor || cursor + lines.length < start then .error (.outOfRange h.oldStart)
    else
      let (out, rest) ← applyLines start (lines.drop (start - cursor)) h.lines
      let behind := cursor + (lines.length - rest.length)
      let after ← applyHunks behind rest hs
      .ok (lines.take (start - cursor) ++ out ++ after)

/-- The text that a diff makes of another. -/
def apply (current : String) (hunks : List Hunk) : Except Error String := do
  let lines ← applyHunks 0 (Text.linesKept current) hunks
  .ok (String.join lines)

end Mend.Diff
