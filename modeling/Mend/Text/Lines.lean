import Mend.Text.Blank
import Mend.Text.Search

/-!
# Lines

Two ways to see the lines of a text. `pieces` keeps each line's terminator, so that the pieces
joined give the text back; a text that ends in a line feed has no empty last piece. `rows` splits
at the line feeds and drops them, so a text that ends in one has an empty last row.
-/

namespace Mend.Text

/-- The lines of a text, each with the line feed that ends it. -/
def pieces : List Char → List (List Char)
  | [] => []
  | c :: s =>
    if c = '\n' then [c] :: pieces s
    else match pieces s with
      | [] => [[c]]
      | p :: ps => (c :: p) :: ps

/-- The texts between the line feeds. -/
def rows : List Char → List (List Char)
  | [] => [[]]
  | c :: s =>
    if c = '\n' then [] :: rows s
    else match rows s with
      | [] => [[c]]
      | r :: rs => (c :: r) :: rs

/-- A line without its line feed, and without the carriage return before it. -/
def stripTerminator (line : List Char) : List Char :=
  match line.reverse with
  | '\n' :: '\r' :: front => front.reverse
  | '\n' :: front => front.reverse
  | _ => line

/-- The blanks that a line starts with. -/
def indentation (line : List Char) : List Char := line.takeWhile isBlank

/-- The pair of carriage return and line feed if the text has one anywhere, else the line feed. -/
def lineEnding (s : List Char) : String :=
  if has s "\r\n" then "\r\n" else "\n"

/-- `pieces` on strings. -/
def linesKept (s : String) : List String := (pieces s.toList).map String.ofList

/-- The lines of a string without their terminators. -/
def linesOf (s : String) : List String :=
  (pieces s.toList).map fun p => String.ofList (stripTerminator p)

end Mend.Text
