import Mend.Rule.Basic

/-!
# Guesses about control flow

These rules work for every language and guess. They run on request only, and every issue of theirs
is marked as heuristic.
-/

namespace Mend.ControlFlow

open Pattern

/-! ## Loops without an exit -/

/-- How many lines after a loop's head are searched for an exit. -/
def loopReach : Nat := 25

/-- The head of a loop that nothing in it ends. -/
def loopHead : Pattern :=
  oneOf [
    boundary ++ spaced ["while", "("] ++ gap
      ++ oneOf [lit "true", lit "1", spaced ["!", "false"]] ++ gap ++ lit ")",
    boundary ++ lit "while" ++ gap1 ++ lit "true" ++ boundary,
    boundary ++ spaced ["for", "(", ";", ";", ")"],
    boundary ++ spaced ["repeat", "\x7b"],
    boundary ++ spaced ["do", "\x7b"]]

/-- A word that leaves a loop. -/
def loopExit : Pattern :=
  wholeOf ["break", "return", "throw", "yield", "exit", "exitProcess", "fatalError", "cancel"] <|>
    lit "process.exit"

/-- The tail of a loop that goes on for ever. -/
def endlessTail : Pattern :=
  spaced ["\x7d", "while"] ++ gap ++ opt (lit "(") ++ gap ++ lit "true" ++ gap ++ opt (lit ")")

/-- Loops without a visible exit. -/
def infiniteLoop : Rule where
  id := "heuristic/infinite-loop"
  title := "Possible infinite loop"
  description :=
    "A loop with a constant-true condition has no break, return or throw in "
    ++ "the lines that follow. Event loops are sometimes intentional."
  platforms := Platform.all
  category := .controlFlow
  kind := .infiniteLoop
  heuristic := true
  detect ctx := .ok <|
    (loopHead.findAll ctx.masked).filterMap fun m =>
      let line := ctx.index.lineOf m.start
      let last := max (min (line + loopReach) ctx.index.lineCount) line
      let window := Text.cut m.stop (max (ctx.index.lineRange last).2 m.stop) ctx.masked
      let head := m.text ctx.masked
      -- Such a head says nothing yet: the tail of the loop decides.
      let tailDecides := Text.startsWith head "repeat" || Text.startsWith head "do"
      if (tailDecides && !endlessTail.isIn window) || loopExit.isIn window then none
      else some ⟨m.start, .low, "Loop has no visible exit",
        "Add a termination condition or document the intended event loop"⟩

/-! ## Code that never runs -/

/-- A line that leaves its block. -/
def leavesBlock : Pattern :=
  let operand := many (noneOf ";\x7b\x7d")
  textStart
    ++ oneOf [lit "return" ++ boundary ++ operand, lit "throw" ++ boundary ++ operand,
      lit "break", lit "continue"]
    ++ gap ++ opt (lit ";") ++ textEnd

/-- A line that goes on in the next one. -/
def goesOn : Pattern := oneOf [anyOf "([\x7b,+-*/=.?:", lit "&&", lit "||"] ++ textEnd

/-- A line that ends the block or starts something new. -/
def endsBlock : Pattern :=
  textStart ++ oneOf [anyOf "\x7d])", lit "case" ++ boundary, lit "default" ++ boundary,
    lit "else" ++ boundary, lit "catch" ++ boundary, lit "finally" ++ boundary, lit "@", lit "#",
    lit "function" ++ boundary, lit "fun" ++ boundary, lit "func" ++ boundary,
    lit "def" ++ boundary]

/-- A condition without braces, so that the next line is conditional. -/
def braceless : Pattern :=
  textStart ++ opt (lit "\x7d" ++ gap) ++ words ["if", "else", "for", "while", "guard"] ++ boundary
      ++ many inLine ++ noneOf "\x7b;" ++ textEnd <|>
    textStart ++ lit "else" ++ textEnd

/-- The lines that follow an unconditional exit from their block. `previous` is the last line before
that is not empty. -/
def deadLines : Option (List Char) → List (Nat × List Char) → List Nat
  | _, [] => []
  | previous, (_, text) :: rest =>
    let later := deadLines (if text.isEmpty then previous else some text) rest
    let balanced := text.countP (· == '(') == text.countP (· == ')')
    if leavesBlock.isIn text && !goesOn.isIn text && balanced && !previous.any braceless.isIn then
      match rest.find? fun l => !l.2.isEmpty with
      | some (line, next) => if endsBlock.isIn next then later else line :: later
      | none => later
    else later

/-- Code after an exit from its block. -/
def unreachableCode : Rule where
  id := "heuristic/unreachable-code"
  title := "Unreachable code"
  description :=
    "Code follows an unconditional return, throw, break or continue in the "
    ++ "same block and can never run."
  platforms := Platform.all
  category := .controlFlow
  kind := .unreachableCode
  heuristic := true
  detect ctx := .ok <|
    let lines := ctx.maskedLines.map fun (n, text) => (n, Text.trim text)
    (deadLines none lines).map fun line =>
      let indent := Text.indentation (ctx.maskedLine line)
      ⟨ctx.index.lineStart line + Text.width indent, .low, "Unreachable code",
        "Remove the dead statements or fix the early exit"⟩

/-- The rules, in the order in which they are tried. -/
def rules : List Rule := [infiniteLoop, unreachableCode]

end Mend.ControlFlow
