import Mend.Text.Blank
import Mend.Text.Search
import Mend.Text.Word

/-!
# Patterns

The rules describe code by patterns: sets of characters, sequences, alternatives, repetitions,
groups whose place is remembered, and tests of what stands on either side. Of several ways to match,
the first in the order of its parts wins: the left alternative before the right one, and a greedy
repetition goes on for as long as it can.
-/

namespace Mend

/-- A pattern of text. -/
inductive Pattern where
  /-- Nothing. -/
  | empty
  /-- One character of a set. -/
  | set (p : Char → Bool)
  /-- Between a word character and something else. -/
  | boundary
  /-- At the start of the text. -/
  | textStart
  /-- At the end of the text. -/
  | textEnd
  /-- At the start of the text or after a line feed. -/
  | lineStart
  /-- One pattern after another. -/
  | seq (p q : Pattern)
  /-- The first pattern or else the second. -/
  | alt (p q : Pattern)
  /-- Any number of characters of a set; a greedy repetition takes as many as it can. -/
  | chars (greedy : Bool) (p : Char → Bool)
  /-- Any number of times; a greedy repetition tries to go on first. -/
  | star (greedy : Bool) (p : Pattern)
  /-- A pattern whose place is remembered. -/
  | group (index : Nat) (p : Pattern)

namespace Pattern

instance : Append Pattern := ⟨seq⟩

instance : OrElse Pattern := ⟨fun p q => alt p (q ())⟩

/-- A literal text. -/
def litChars : List Char → Pattern
  | [] => empty
  | [c] => set (· == c)
  | c :: s => set (· == c) ++ litChars s

/-- A literal text. -/
def lit (s : String) : Pattern := litChars s.toList

/-- Nothing ever. -/
def never : Pattern := set fun _ => false

/-- The first of several patterns that matches. -/
def oneOf : List Pattern → Pattern
  | [] => never
  | [p] => p
  | p :: ps => alt p (oneOf ps)

/-- The first of several literal texts that matches. -/
def words (ws : List String) : Pattern := oneOf (ws.map lit)

/-- Any number of times. -/
def repeated (greedy : Bool) : Pattern → Pattern
  | set p => chars greedy p
  | p => star greedy p

/-- Any number of times, as often as possible. -/
def many (p : Pattern) : Pattern := repeated true p

/-- At least once, as often as possible. -/
def many1 (p : Pattern) : Pattern := p ++ many p

/-- Any number of times, as seldom as possible. -/
def fewest (p : Pattern) : Pattern := repeated false p

/-- At least once, as seldom as possible. -/
def fewest1 (p : Pattern) : Pattern := p ++ fewest p

/-- Once if possible. -/
def opt (p : Pattern) : Pattern := alt p empty

/-- A character of the list. -/
def anyOf (cs : String) : Pattern := set fun c => cs.toList.contains c

/-- A character that is not in the list. -/
def noneOf (cs : String) : Pattern := set fun c => !cs.toList.contains c

/-- A word character. -/
def wordChar : Pattern := set Text.isWord

/-- Word characters, at least one. -/
def word1 : Pattern := many1 wordChar

/-- A capital letter of the Latin alphabet. -/
def capital : Pattern := set Char.isUpper

/-- A blank. -/
def blank : Pattern := set Text.isBlank

/-- Blanks, if any. -/
def gap : Pattern := many blank

/-- Blanks, at least one. -/
def gap1 : Pattern := many1 blank

/-- Any character but a line feed. -/
def inLine : Pattern := set (· != '\n')

/-- A literal text that is a word of its own. -/
def whole (s : String) : Pattern := boundary ++ lit s ++ boundary

/-- One of several literal texts as a word of its own. -/
def wholeOf (ws : List String) : Pattern := boundary ++ words ws ++ boundary

/-- Literal texts with blanks allowed between them. -/
def spaced (tokens : List String) : Pattern :=
  match tokens with
  | [] => empty
  | [t] => lit t
  | t :: ts => lit t ++ gap ++ spaced ts

end Pattern

end Mend
