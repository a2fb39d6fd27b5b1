import Mend.Count
import Mend.Issue
import Mend.Pattern.Search
import Mend.Text.Balance
import Mend.Text.LineIndex
import Mend.Text.Lines

/-!
# What a rule may look at

A rule reads one file: its source, the masked text of it with the same byte offsets, the line
numbers of both, the platform and the language. The helpers here are the ones that rules share:
blocks that follow an opener, the statement and the receiver around a place, and whether a value
was tested for null a few lines earlier.
-/

namespace Mend

/-- One file as the rules see it. -/
structure Context where
  path : Path
  /-- The source text. -/
  source : List Char
  /-- The source with comments and string bodies hidden. -/
  masked : List Char
  index : Text.LineIndex
  platform : Platform
  language : Language

/-- A region between braces. -/
structure Block where
  /-- Where the match of the opener starts. -/
  start : Nat
  /-- The offset of the opening brace. -/
  opening : Nat
  /-- What is between the braces; up to the end of the text where the closing one is missing. -/
  body : Span
  closed : Bool
  deriving Repr, DecidableEq

namespace Block

/-- The offset lies between the braces. -/
def contains (b : Block) (offset : Nat) : Bool :=
  b.body.start ≤ offset && offset < b.body.stop

end Block

/-- The offset lies inside one of the blocks. -/
def insideAny (blocks : List Block) (offset : Nat) : Bool :=
  blocks.any fun b => b.contains offset

/-- The language of a file, by its extension. -/
def Path.language? (p : Path) : Option Language := p.extension?.bind Language.ofExtension?

namespace Context

/-- A file whose language is supported. -/
def of? (path : Path) (content : String) (platform : Platform) : Option Context :=
  path.language?.map fun language =>
    let source := content.toList
    { path, source, masked := Text.Mask.mask language source, index := .of source, platform,
      language }

/-- A line without the carriage returns it ends with. -/
def withoutReturns (line : List Char) : List Char := Text.dropEndWhile (· == '\r') line

/-- The source of a line, without its terminator. -/
def lineText (ctx : Context) (line : Nat) : List Char :=
  let (start, stop) := ctx.index.lineRange line
  withoutReturns (Text.cut start stop ctx.source)

/-- The masked text of a line, without its terminator. -/
def maskedLine (ctx : Context) (line : Nat) : List Char :=
  let (start, stop) := ctx.index.lineRange line
  withoutReturns (Text.cut start stop ctx.masked)

/-- The masked lines with their numbers. -/
def maskedLines (ctx : Context) : List (Nat × List Char) :=
  (Text.rows ctx.masked).zipIdx.map fun (row, i) => (i + 1, withoutReturns row)

/-- The pattern is somewhere in the code. -/
def has (ctx : Context) (p : Pattern) : Bool := p.isIn ctx.masked

/-- The blocks whose opening brace ends a match of `opener` or comes within `reach` bytes after
one. Where the reach ends inside a character, or before the match as a sum that is too large for a
count, the match is dropped. -/
def blocksAfter (ctx : Context) (opener : Pattern) (reach : Nat) : List Block :=
  let size := Text.width ctx.masked
  (opener.findAll ctx.masked).filterMap fun m => do
    let opening ←
      if Text.endsWith (m.text ctx.masked) "\x7b" then some (m.stop - 1)
      else do
        let window ← Text.slice? m.stop (min (Count.wrapped (m.stop + reach)) size) ctx.masked
        let ahead ← Text.find? (· == '\x7b') window
        pure (m.stop + ahead)
    pure <|
      match Text.matchingClose ctx.masked opening with
      | some close => ⟨m.start, opening, ⟨opening + 1, close⟩, true⟩
      | none => ⟨m.start, opening, ⟨opening + 1, size⟩, false⟩

/-- The code between the braces of a block. -/
def bodyOf (ctx : Context) (b : Block) : List Char :=
  Text.cut b.body.start b.body.stop ctx.masked

/-- The words that show a test for null. -/
def nullTests : List String :=
  ["!= null", "!== null", "!= nil", "if let", "guard let", "?.let"]

/-- One of the `lookback` lines before `line` tests `name` for null. -/
def guardedNearby (ctx : Context) (line : Nat) (name : List Char) (lookback : Nat) : Bool :=
  if name.isEmpty then false
  else
    let first := max (line - lookback) 1
    (List.range' first (line - first)).any fun l =>
      let text := ctx.maskedLine l
      Text.occurs name text &&
        (nullTests.any (Text.has text) || Text.occurs ("if (".toList ++ name ++ [')']) text
          || Text.occurs ("if (".toList ++ name ++ [' ']) text)

/-- One of the lines from `back` lines before `line` up to `last` has the word `is` and the type. -/
def typeTested (ctx : Context) (line back last : Nat) (type : List Char) : Bool :=
  let first := max (line - back) 1
  (List.range' first (last + 1 - first)).any fun l =>
    Text.occurs ("is ".toList ++ type) (ctx.maskedLine l)

end Context

/-! ## Statements and receivers -/

/-- The characters that end a statement or start a block. -/
def endsStatement (c : Char) : Bool := c == ';' || c == '\x7b' || c == '\x7d'

/-- Where the last statement of a text begins. -/
def lastStatementStart (s : List Char) : Nat :=
  match Text.findLast? endsStatement s with
  | some at' => at' + 1
  | none => 0

/-- Where the statement around an offset begins. -/
def statementStart (s : List Char) (offset : Nat) : Except Text.BadOffset Nat :=
  (Text.before offset s).map lastStatementStart

/-- The part of a statement before an offset. -/
def statementBefore (s : List Char) (offset : Nat) : List Char :=
  let front := Text.cut 0 offset s
  Text.after (lastStatementStart front) front

namespace Pattern

/-- The start of a name. -/
def nameStart : Pattern := set fun c => c.isAlpha || c == '_' || c == '$'

/-- A character of a name or a dollar sign. -/
def nameChar : Pattern := set fun c => Text.isWord c || c == '$'

/-- A statement that assigns to a name, which is group 1. -/
def assignment : Pattern :=
  let modifiers :=
    words ["const", "let", "var", "val", "final", "late", "private", "public"] ++ gap1
  let typeChar := set fun c =>
    Text.isWord c || c == '<' || c == '>' || c == '?' || c == ',' || Text.isBlank c
  let annotationChar := set fun c =>
    Text.isWord c || c == '<' || c == '>' || c == '?' || c == '.'
  textStart ++ gap ++ many modifiers ++ opt (fewest1 typeChar ++ gap1)
    ++ opt (words ["this.", "self."]) ++ group 1 (nameStart ++ many nameChar) ++ gap
    ++ opt (lit ":" ++ gap ++ many1 annotationChar ++ gap) ++ lit "=" ++ noneOf "="

end Pattern

/-- The name that a statement assigns to. -/
def assignedName? (statement : List Char) : Option (List Char) :=
  (Pattern.assignment.find? statement).bind fun m => m.groupText? 1 statement

/-- A character of a chain of names and dots. -/
def isChainChar (c : Char) : Bool :=
  Text.isAlphanumeric c || c == '_' || c == '$' || c == '.'

/-- The chain of names that ends right before an offset. -/
def receiverBefore (s : List Char) (offset : Nat) : Except Text.BadOffset (List Char) :=
  (Text.before offset s).map fun front =>
    ((front.reverse.takeWhile isChainChar).reverse).dropWhile (· == '.')

end Mend
