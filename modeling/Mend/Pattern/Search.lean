import Mend.Pattern.Basic
import Mend.Pattern.Matcher

/-!
# Matches of patterns

The leftmost place of a text where a pattern matches is its match there. `Pattern.on` turns a
pattern and a way to go on after it into a way to match: at each place it tries the ways of the
pattern in their order, until what follows succeeds. Inside a search, places are numbers of
characters; a match tells byte offsets.
-/

namespace Mend

/-- A text to search. -/
structure Subject where
  chars : Array Char
  /-- The byte offset of each character, and of the end. -/
  offsets : Array Nat

namespace Subject

/-- The text to search of a list of characters. -/
def of (s : List Char) : Subject :=
  let (offsets, size) := s.foldl (fun (offsets, pos) c => (offsets.push pos, pos + c.utf8Size))
    ((#[] : Array Nat), 0)
  ⟨s.toArray, offsets.push size⟩

/-- The number of characters. -/
def size (s : Subject) : Nat := s.chars.size

/-- The byte offset of a place. -/
def offset (s : Subject) (i : Nat) : Nat := s.offsets[i]?.getD 0

/-- The character before a place. -/
def before? (s : Subject) (i : Nat) : Option Char := if i = 0 then none else s.chars[i - 1]?

/-- A word character stands on exactly one side. -/
def atBoundary (s : Subject) (i : Nat) : Bool :=
  ((s.before? i).any Text.isWord) != ((s.chars[i]?).any Text.isWord)

/-- How many characters in a row from a place on satisfy `p`, at most `limit`. -/
def runLength (s : Subject) (p : Char → Bool) (limit i : Nat) : Nat := go limit 0
where
  /-- `n` of them are counted already. -/
  go : Nat → Nat → Nat
    | 0, n => n
    | limit + 1, n => if (s.chars[i + n]?).any p then go limit (n + 1) else n

end Subject

/-- Match a pattern in a text and go on with `next`. -/
def Pattern.on (s : Subject) : Pattern → Matcher → Matcher
  | empty, next => next
  | set p, next =>
    ⟨next.light, fun i =>
      match s.chars[i]? with
      | some c => if p c then next.run (i + 1) else none
      | none => none⟩
  | boundary, next => ⟨next.light, fun i => if s.atBoundary i then next.run i else none⟩
  | textStart, next => ⟨next.light, fun i => if i = 0 then next.run i else none⟩
  | textEnd, next => ⟨next.light, fun i => if i = s.size then next.run i else none⟩
  | lineStart, next =>
    ⟨next.light, fun i => if i = 0 ∨ s.before? i = some '\n' then next.run i else none⟩
  | seq p q, next => p.on s (q.on s next)
  | alt p q, next =>
    let left := p.on s next
    let right := q.on s next
    ⟨left.light && right.light, fun i =>
      match left.run i with
      | some e => some e
      | none => right.run i⟩
  | chars greedy p, next =>
    let row := next.row greedy s.size
    ⟨false, fun i => row.outcome i (s.runLength p (s.size - i) i + 1)⟩
  | star greedy p, next =>
    let next := next.shared s.size
    ⟨false, fun i => Matcher.loop greedy (p.on s) next (s.size - i) i⟩
  | group k p, next =>
    let body := p.on s ⟨next.light, fun i => (next.run i).map (·.marked (.closed k i))⟩
    ⟨body.light, fun i => (body.run i).map (·.marked (.opened k i))⟩

/-- A range of bytes. -/
structure Span where
  start : Nat
  stop : Nat
  deriving Repr, DecidableEq

/-- A match of a pattern in a text. -/
structure Match where
  start : Nat
  stop : Nat
  /-- Where the groups opened and closed, in the order of the text. -/
  marks : List Mark
  deriving Repr, DecidableEq

namespace Match

/-- The match that starts at a place of a text and ends as told. -/
def of (s : Subject) (found : Nat × Ending) : Match :=
  ⟨s.offset found.1, s.offset found.2.stop, found.2.marks.map (·.mapPlace s.offset)⟩

/-- Where a group matched last, if it took part in the match. -/
def group? (m : Match) (group : Nat) : Option Span :=
  match (m.marks.filterMap (·.opened? group)).getLast?,
    (m.marks.filterMap (·.closed? group)).getLast? with
  | some start, some stop => some ⟨start, stop⟩
  | _, _ => none

/-- What a group matched in the text. -/
def groupText? (m : Match) (group : Nat) (s : List Char) : Option (List Char) :=
  (m.group? group).map fun span => Text.cut span.start span.stop s

/-- What the pattern matched in the text. -/
def text (m : Match) (s : List Char) : List Char := Text.cut m.start m.stop s

end Match

namespace Pattern

/-- The pattern matches at the start of a text. -/
def matchesStart (p : Pattern) (s : List Char) : Bool :=
  ((p.on (.of s) .done).run 0).isSome

/-- The leftmost match in a text. -/
def find? (p : Pattern) (s : List Char) : Option Match :=
  let subject := Subject.of s
  ((p.on subject .done).leftmost? (subject.size + 1) 0).map (Match.of subject)

/-- The pattern matches somewhere in a text. -/
def isIn (p : Pattern) (s : List Char) : Bool := (p.find? s).isSome

/-- The matches in a text, left to right and without overlaps. -/
def findAll (p : Pattern) (s : List Char) : List Match :=
  let subject := Subject.of s
  ((p.on subject .done).all subject.size (2 * subject.size + 2) none 0).map (Match.of subject)

end Pattern

end Mend
