import Mend.Text.Mask

/-!
# Delimiters

Three kinds of bracket come in pairs. `matchingClose` finds the closer of one opener by counting
its kind only; `Balance` counts all three over the masked text and remembers whether a closer ever
came before its opener. A patch that unbalances a balanced file is refused by `sanityCheck`.
-/

namespace Mend.Text

/-- The three kinds of bracket. -/
inductive Delimiter where
  | brace | paren | bracket
  deriving Repr, DecidableEq

namespace Delimiter

/-- The character that opens a pair. -/
def opener : Delimiter → Char
  | brace => '\x7b'
  | paren => '('
  | bracket => '['

/-- The character that closes a pair. -/
def closer : Delimiter → Char
  | brace => '\x7d'
  | paren => ')'
  | bracket => ']'

/-- Every kind. -/
def all : List Delimiter := [brace, paren, bracket]

/-- The kind that a character opens. -/
def ofOpener? (c : Char) : Option Delimiter := all.find? fun d => d.opener == c

/-- The kind that a character closes. -/
def ofCloser? (c : Char) : Option Delimiter := all.find? fun d => d.closer == c

end Delimiter

/-- The offset at which the brackets of one kind, `depth` of them open, are all closed; the text
starts at `pos`. -/
def closeFrom (kind : Delimiter) : Nat → Nat → List Char → Option Nat
  | _, _, [] => none
  | depth, pos, c :: s =>
    if c = kind.opener then closeFrom kind (depth + 1) (pos + c.utf8Size) s
    else if c = kind.closer then
      if depth = 1 then some pos else closeFrom kind (depth - 1) (pos + c.utf8Size) s
    else closeFrom kind depth (pos + c.utf8Size) s

/-- The offset of the closer that matches the opener at an offset, if an opener stands there. -/
def matchingClose (s : List Char) (opening : Nat) : Option Nat :=
  match from? opening s with
  | some (c :: rest) =>
    (Delimiter.ofOpener? c).bind fun kind => closeFrom kind 0 opening (c :: rest)
  | _ => none

/-- How many more openers than closers there are of each kind. -/
structure Balance where
  braces : Int := 0
  parens : Int := 0
  brackets : Int := 0
  /-- A closer came when no opener of its kind was open. -/
  underflow : Bool := false
  deriving Repr, DecidableEq

namespace Balance

/-- The count of one kind. -/
def count (b : Balance) : Delimiter → Int
  | .brace => b.braces
  | .paren => b.parens
  | .bracket => b.brackets

/-- Change the count of one kind. -/
def add (b : Balance) (kind : Delimiter) (n : Int) : Balance :=
  match kind with
  | .brace => { b with braces := b.braces + n }
  | .paren => { b with parens := b.parens + n }
  | .bracket => { b with brackets := b.brackets + n }

/-- Count one more character. -/
def push (b : Balance) (c : Char) : Balance :=
  match Delimiter.ofOpener? c with
  | some kind => b.add kind 1
  | none =>
    match Delimiter.ofCloser? c with
    | some kind =>
      let b := b.add kind (-1)
      if b.count kind < 0 then { b with underflow := true } else b
    | none => b

/-- The balance of a text that is code throughout. -/
def ofMasked (s : List Char) : Balance := s.foldl push {}

/-- The balance of a source text. -/
def of (language : Language) (s : List Char) : Balance := ofMasked (Mask.mask language s)

/-- Every opener has its closer and no closer comes first. -/
def isBalanced (b : Balance) : Bool :=
  !b.underflow && b.braces == 0 && b.parens == 0 && b.brackets == 0

/-- A count with its sign; zero has a plus. -/
def signed (n : Int) : String := if n < 0 then s!"-{n.natAbs}" else s!"+{n.natAbs}"

/-- The balance in words. -/
def display (b : Balance) : String :=
  "braces " ++ signed b.braces ++ ", parens " ++ signed b.parens
    ++ ", brackets " ++ signed b.brackets
    ++ (if b.underflow then ", closer before opener" else "")

end Balance

/-- Refuse a change that unbalances a balanced text. A text that is unbalanced to begin with can
prove nothing, so any change to it passes. The error is the reason. -/
def sanityCheck (language : Language) (old new : List Char) : Except String Unit :=
  if !(Balance.of language old).isBalanced then .ok ()
  else
    let balance := Balance.of language new
    if balance.isBalanced then .ok ()
    else .error ("delimiters unbalanced after patch: " ++ balance.display)

end Mend.Text
