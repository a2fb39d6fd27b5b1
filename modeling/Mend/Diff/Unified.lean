import Mend.Diff.Apply
import Mend.Path
import Mend.Text.Escaped
import Mend.Text.Word

/-!
# Unified diff text

`render` writes a diff with its file headers and `parse` reads it back. A line without a line feed
is followed by a marker line. The reader skips everything outside hunks, takes a length that is left
out for one, and takes an empty line inside a hunk for an empty context line.
-/

namespace Mend.Diff

/-! ## Writing -/

/-- What follows a line that has no line feed. -/
def noNewlineMarker : String := "\\ No newline at end of file"

/-- The sign in front of a line. -/
def Line.sign : Line → String
  | context _ => " "
  | removed _ => "-"
  | added _ => "+"

/-- The line that starts a hunk. -/
def Hunk.header (h : Hunk) : String :=
  s!"@@ -{h.oldStart},{h.oldLen} +{h.newStart},{h.newLen} @@"

/-- A line of a hunk. -/
def Line.render (l : Line) : String :=
  l.sign ++ l.text ++
    (if Text.endsWith l.text.toList "\n" then "" else "\n" ++ noNewlineMarker ++ "\n")

/-- A hunk. -/
def Hunk.render (h : Hunk) : String :=
  h.header ++ "\n" ++ String.join (h.lines.map Line.render)

/-- Hunks without file headers. -/
def renderHunks (hunks : List Hunk) : String := String.join (hunks.map Hunk.render)

/-- A diff of the file at `path`. -/
def render (path : Path) (hunks : List Hunk) : String :=
  "--- a/" ++ path.text ++ "\n+++ b/" ++ path.text ++ "\n" ++ renderHunks hunks

/-! ## Reading -/

/-- A run of digits, of any script, that is not empty. -/
def digitRun? (s : List Char) : Option (List Char × List Char) :=
  let digits := s.takeWhile Text.isDigit
  if digits.isEmpty then none else some (digits, s.dropWhile Text.isDigit)

/-- A number that may be left out, with the comma before it. -/
def commaRun? (s : List Char) : Option (List Char) × List Char :=
  match s with
  | ',' :: rest =>
    match digitRun? rest with
    | some (digits, rest) => (some digits, rest)
    | none => (none, s)
  | _ => (none, s)

/-- A literal at the start. -/
def literal? (word : String) (s : List Char) : Option (List Char) :=
  if word.toList.isPrefixOf s then some (s.drop word.length) else none

/-- The digits of a hunk header's four numbers, if the line starts with one. -/
def headerDigits? (line : String) :
    Option (List Char × Option (List Char) × List Char × Option (List Char)) := do
  let s ← literal? "@@ -" line.toList
  let (oldStart, s) ← digitRun? s
  let (oldLen, s) := commaRun? s
  let s ← literal? " +" s
  let (newStart, s) ← digitRun? s
  let (newLen, s) := commaRun? s
  let _ ← literal? " @@" s
  pure (oldStart, oldLen, newStart, newLen)

/-- The number with one more digit at its end; the error is the reason. -/
def addDigit (n : Nat) (c : Char) : Except String Nat :=
  if !c.isDigit then .error "invalid digit found in string"
  else
    let n := n * 10 + (c.toNat - '0'.toNat)
    if Data.countLimit < n then .error "number too large to fit in target type" else .ok n

/-- The number of a run of digits; the error is the reason. The first digit that is not decimal
ASCII, or that makes the number too large, decides. -/
def countOf (digits : List Char) : Except String Nat := digits.foldlM addDigit 0

/-- A number of the header on a line of the diff. -/
def headerCount (line : Nat) (digits : Option (List Char)) (default : Nat) : Except Error Nat :=
  match digits with
  | none => .ok default
  | some digits =>
    match countOf digits with
    | .ok n => .ok n
    | .error reason => .error (.malformed line reason)

/-- Take the line feed off the last line read; `lines` is in reverse. -/
def stripLast (line : Nat) : List Line → Except Error (List Line)
  | [] => .error (.malformed line "no-newline marker before any line")
  | l :: ls =>
    match l.text.toList.reverse with
    | '\n' :: front => .ok (l.withText (String.ofList front.reverse) :: ls)
    | _ => .ok (l :: ls)

/-- A hunk in the making. -/
structure Partial where
  /-- Lines read so far, in reverse. -/
  lines : List Line := []
  oldSeen : Nat := 0
  newSeen : Nat := 0

/-- Read the lines of a hunk until it has as many as its header says; `number` is the number of the
next line. Gives back the number and the lines that follow. -/
def readLines (oldLen newLen : Nat) (h : Partial) (number : Nat) (rest : List String) :
    Except Error (Partial × Nat × List String) :=
  if oldLen ≤ h.oldSeen && newLen ≤ h.newSeen then .ok (h, number, rest)
  else
    match rest with
    | [] => .error (.malformed number "hunk ends early")
    | raw :: rest =>
      match raw.toList with
      | ' ' :: body =>
        readLines oldLen newLen
          { lines := .context (String.ofList body) :: h.lines
            oldSeen := h.oldSeen + 1, newSeen := h.newSeen + 1 } (number + 1) rest
      | '-' :: body =>
        readLines oldLen newLen
          { h with lines := .removed (String.ofList body) :: h.lines, oldSeen := h.oldSeen + 1 }
          (number + 1) rest
      | '+' :: body =>
        readLines oldLen newLen
          { h with lines := .added (String.ofList body) :: h.lines, newSeen := h.newSeen + 1 }
          (number + 1) rest
      | '\\' :: _ => do
        let lines ← stripLast number h.lines
        readLines oldLen newLen { h with lines } (number + 1) rest
      | c :: _ =>
        if c = '\n' || c = '\r' then
          readLines oldLen newLen
            { lines := .context raw :: h.lines
              oldSeen := h.oldSeen + 1, newSeen := h.newSeen + 1 } (number + 1) rest
        else
          .error (.malformed number ("unexpected line "
            ++ Text.escaped (String.ofList (Text.trimEnd raw.toList))))
      | [] => .error (.malformed number ("unexpected line " ++ Text.escaped ""))

/-- The marker after the last line of a hunk. -/
def readMarker (h : Partial) (number : Nat) : List String →
    Except Error (Partial × Nat × List String)
  | raw :: rest =>
    if raw.toList.head? = some '\\' then do
      let lines ← stripLast number h.lines
      .ok ({ h with lines }, number + 1, rest)
    else .ok (h, number, raw :: rest)
  | [] => .ok (h, number, [])

/-- Read the lines of a hunk from the start, with the marker after the last one. -/
def readBody (oldLen newLen number : Nat) (rest : List String) :
    Except Error (Partial × Nat × List String) := do
  let (h, next, rest) ← readLines oldLen newLen {} number rest
  readMarker h next rest

/-- A hunk whose header stands on line `number` of the diff; `rest` follows the header. -/
def readHunk (number : Nat)
    (digits : List Char × Option (List Char) × List Char × Option (List Char))
    (rest : List String) : Except Error (Hunk × Nat × List String) := do
  let (oldStart, oldLen, newStart, newLen) := digits
  let oldStart ← headerCount number (some oldStart) 0
  let oldLen ← headerCount number oldLen 1
  let newStart ← headerCount number (some newStart) 0
  let newLen ← headerCount number newLen 1
  let (h, next, rest) ← readBody oldLen newLen (number + 1) rest
  if h.oldSeen ≠ oldLen || h.newSeen ≠ newLen then
    .error (.malformed (next - 1) "line counts disagree with hunk header")
  else .ok (⟨oldStart, oldLen, newStart, newLen, h.lines.reverse⟩, next, rest)

/-- The hunks of the lines from line `number` on. The fuel is the number of lines. -/
def readHunks : Nat → Nat → List String → Except Error (List Hunk)
  | _, _, [] => .ok []
  | 0, _, _ => .ok []
  | fuel + 1, number, raw :: rest =>
    match headerDigits? raw with
    | none => readHunks fuel (number + 1) rest
    | some digits => do
      let (h, next, rest) ← readHunk number digits rest
      let hs ← readHunks fuel next rest
      .ok (h :: hs)

/-- Read the text of a diff. -/
def parse (text : String) : Except Error (List Hunk) :=
  let lines := Text.linesKept text
  readHunks lines.length 1 lines

end Mend.Diff
