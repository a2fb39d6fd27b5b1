import Mend.Text.Offset

/-!
# Line numbers of byte offsets

An index holds the offsets of the line feeds of a text and its size in bytes. Lines and columns
count from one; a column counts bytes. A line feed belongs to the line that it ends.
-/

namespace Mend.Text

/-- Where the lines of a text start and end. -/
structure LineIndex where
  /-- Offsets of the line feeds, in order. -/
  newlines : List Nat
  /-- Bytes of the text. -/
  size : Nat
  deriving Repr, DecidableEq

namespace LineIndex

/-- The index of a text. -/
def of (s : List Char) : LineIndex := ⟨offsetsOf (· == '\n') s, width s⟩

/-- The line of an offset: one plus the number of line feeds before it. -/
def lineOf (index : LineIndex) (offset : Nat) : Nat :=
  index.newlines.countP (· < offset) + 1

/-- The offset at which a line starts; the end of the text for a line past the last one. -/
def lineStart (index : LineIndex) (line : Nat) : Nat :=
  if line ≤ 1 then 0
  else match index.newlines[line - 2]? with
    | some nl => nl + 1
    | none => index.size

/-- The column of an offset in its line. -/
def columnOf (index : LineIndex) (offset : Nat) : Nat :=
  offset - index.lineStart (index.lineOf offset) + 1

/-- Columns of a position count in 32 bits. -/
def columnModulus : Nat := 4294967296

/-- The line and the column of any offset, also one far past the end of the text: the column keeps
its low 32 bits. -/
def position (index : LineIndex) (offset : Nat) : Nat × Nat :=
  (index.lineOf offset, index.columnOf offset % columnModulus)

/-- The offsets of a line, from its start up to its line feed. -/
def lineRange (index : LineIndex) (line : Nat) : Nat × Nat :=
  let start := index.lineStart line
  let stop := index.newlines[line - 1]?.getD index.size
  (start, max stop start)

/-- The number of lines; what follows the last line feed counts if it is not empty. -/
def lineCount (index : LineIndex) : Nat :=
  let lastStart := match index.newlines.getLast? with
    | some nl => nl + 1
    | none => 0
  index.newlines.length + if lastStart < index.size then 1 else 0

end LineIndex

end Mend.Text
