import Mend.Count
import Mend.Ratio
import Mend.Text.Lines

/-!
# Where a snippet is now

A file may have changed since a fix was made for it. The snippet is first looked for line by line,
blanks around the lines aside; of several places the one nearest to the old line wins. Failing that,
the window near the old line that agrees in the most lines is taken, if enough of them agree.
-/

namespace Mend.Patch

/-- How far a snippet may have drifted. -/
structure Locator where
  /-- How many lines around the old line are tried; the number of the last of them is a count. -/
  anchorOffset : Nat := 3
  /-- The share of the lines that has to agree, a number of 53 bits. -/
  minSimilarity : Ratio := ⟨1, 2⟩
  deriving Repr, DecidableEq

/-- Where a snippet is; lines count from zero. -/
inductive Location where
  | exact (start : Nat)
  | anchored (start : Nat) (similarity : Ratio)
  | unresolved
  deriving Repr, DecidableEq

/-- A share of agreeing lines is enough, as measured in 53 bits. -/
def Locator.accepts (l : Locator) (similarity : Ratio) : Bool :=
  similarity.nearest.atLeast l.minSimilarity

/-- Two lines agree up to the blanks around them. -/
def agree (a b : List Char) : Bool := Text.trim a == Text.trim b

/-- How many lines of a snippet agree with the lines that start at `start`. -/
def agreement (lines snippet : List (List Char)) (start : Nat) : Nat :=
  (snippet.zip (lines.drop start)).countP fun (a, b) => agree a b

/-- The distance between two numbers. -/
def distance (a b : Nat) : Nat := (a - b) + (b - a)

/-- The first of the numbers that is nearest to `expected`. -/
def nearest? (expected : Nat) : List Nat → Option Nat
  | [] => none
  | n :: ns =>
    match nearest? expected ns with
    | none => some n
    | some m => if distance m expected < distance n expected then some m else some n

/-- The first of the starts with the greatest agreement; of equals, the nearest to `expected`. The
agreement comes with the start. -/
def best? (score : Nat → Nat) (expected : Nat) : List Nat → Option (Nat × Nat)
  | [] => none
  | n :: ns =>
    match best? score expected ns with
    | none => some (n, score n)
    | some (m, s) =>
      if score n < s || (score n == s && distance m expected < distance n expected) then some (m, s)
      else some (n, score n)

/-- Where a snippet that was at line `near` is now. -/
def Locator.locate (l : Locator) (lines snippet : List (List Char)) (near : Nat) : Location :=
  if snippet.isEmpty || lines.length < snippet.length then .unresolved
  else
    let expected := near - 1
    let lastStart := lines.length - snippet.length
    let exact := (List.range (lastStart + 1)).filter fun start =>
      agreement lines snippet start == snippet.length
    match nearest? expected exact with
    | some start => .exact start
    | none =>
      let lo := expected - l.anchorOffset
      let hi := min (Count.wrapped (expected + l.anchorOffset)) lastStart
      match best? (agreement lines snippet) expected (List.range' lo (hi + 1 - lo)) with
      | some (start, count) =>
        let similarity : Ratio := ⟨count, snippet.length⟩
        if l.accepts similarity then .anchored start similarity else .unresolved
      | none => .unresolved

end Mend.Patch
