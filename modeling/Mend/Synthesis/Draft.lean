import Mend.Fix
import Mend.Synthesis.Window

/-!
# Drafts of fixes

A template looks at a window and either drafts new lines for some of its lines or declines. It cuts
lines at places found in the masked text, or at a column that was noted when the file may have been
another one; a cut inside a character would be an error (`Text.BadOffset`), so an attempt has three
outcomes.
-/

namespace Mend

/-- A result, a refusal, or a cut at a bad offset. -/
abbrev Attempt := OptionT (Except Text.BadOffset)

namespace Attempt

/-- Decline where there is no value. -/
def of {α : Type} (value? : Option α) : Attempt α := OptionT.mk (.ok value?)

/-- Decline unless the condition holds. -/
def require (condition : Bool) : Attempt Unit := of (if condition then some () else none)

end Attempt

/-- New lines for some lines of a file. -/
structure Draft where
  firstLine : Nat
  replaced : List (List Char)
  suggested : List (List Char)
  title : String
  description : String
  alternatives : List Alternative := []
  deriving Repr, DecidableEq

namespace Draft

/-- A draft for the focus line alone. -/
def ofLine (w : Window) (title description : String)
    (change : List Char → Attempt (List Char)) : Attempt Draft := do
  let line ← Attempt.of w.focusText?
  let suggested ← change line
  pure { firstLine := w.focus, replaced := [line], suggested := [suggested], title, description }

/-- The draft with another way to mend the issue. -/
def withAlternative (d : Draft) (title tradeoff : String) (confidence : Nat)
    (code : Option (List Char)) : Draft :=
  { d with alternatives := d.alternatives ++
      [{ title, tradeoff, confidence, suggestedCode := code.map String.ofList }] }

end Draft

namespace Synthesis

/-- The offset of an issue in its line. -/
def offsetOf? (column : Option Nat) : Option Nat :=
  column.bind fun c => if c = 0 then none else some (c - 1)

/-- A text to put in at an offset. -/
structure Insertion where
  offset : Nat
  text : List Char

/-- Put texts in at offsets in order; what is before `cursor` is left out. -/
def insertFrom (s : List Char) (cursor : Nat) : List Insertion → Except Text.BadOffset (List Char)
  | [] => Text.onward cursor s
  | i :: is => do
    let kept ← Text.between cursor i.offset s
    let rest ← insertFrom s i.offset is
    pure (kept ++ i.text ++ rest)

/-- Put texts in at offsets, in the order of the offsets. -/
def insertAll (insertions : List Insertion) (s : List Char) : Except Text.BadOffset (List Char) :=
  insertFrom s 0 (insertions.mergeSort fun a b => a.offset ≤ b.offset)

/-- Put new text in the place of `length` bytes at an offset. -/
def replaceAt (offset length : Nat) (new : List Char) (line : List Char) :
    Except Text.BadOffset (List Char) := do
  let front ← Text.before offset line
  let back ← Text.onward (offset + length) line
  pure (front ++ new ++ back)

/-- The indentation of the first line that is not blank. -/
def bodyIndent? (lines : List (List Char)) : Option (List Char) :=
  (lines.find? fun l => !l.all Text.isBlank).map Text.indentation

end Synthesis

end Mend
