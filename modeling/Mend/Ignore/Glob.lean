import Mend.Pattern.Search
import Mend.Text.Bytes

/-!
# Globs

A glob describes relative paths. A star stands for any bytes but the slash, a question mark for one
byte, brackets for one byte of a set, and braces for one of several globs. Two stars between slashes
stand for any number of directories. A backslash takes the next character literally.

Paths are matched byte by byte: a text is turned into one character per byte (`Text.encode`).
-/

namespace Mend.Ignore

/-- A part of a glob. -/
inductive Token where
  | literal (c : Char)
  /-- One byte. -/
  | any
  /-- Bytes of one name. -/
  | star
  /-- Any directories at the start. -/
  | leading
  /-- Anything below. -/
  | trailing
  /-- A slash, or any directories between two slashes. -/
  | between
  | set (negated : Bool) (ranges : List (Char × Char))
  | alternatives (branches : List (List Token))

/-! ## Reading -/

/-- A set in the making. -/
structure SetReader where
  /-- The ranges so far, the latest first. -/
  ranges : List (Char × Char) := []
  /-- A hyphen was read, and the next character ends a range. -/
  open_ : Bool := false

/-- Why no set was read. -/
inductive SetError where
  | unclosed
  | emptyRange

/-- The ranges of a set up to its closing bracket; a bracket or a hyphen that comes first stands for
itself. -/
def readSet (first : Bool) (r : SetReader) :
    List Char → Except SetError (List (Char × Char) × List Char)
  | [] => .error .unclosed
  | c :: s =>
    let extended : Except SetError SetReader :=
      match r.ranges with
      | (lo, _) :: rest => if c < lo then .error .emptyRange else .ok ⟨(lo, c) :: rest, false⟩
      | [] => .ok ⟨[(c, c)], false⟩
    if c == ']' && !first then
      .ok ((if r.open_ then ('-', '-') :: r.ranges else r.ranges).reverse, s)
    else if c == '-' && !first && !r.open_ then readSet false { r with open_ := true } s
    else if r.open_ then extended.bind fun r => readSet false r s
    else readSet false ⟨(c, c) :: r.ranges, false⟩ s

/-- A set, after its opening bracket. A bracket that is never closed stands for itself; a range that
runs backwards makes the glob invalid. -/
def set? (s : List Char) : Option (Token × List Char) :=
  let (negated, body) := match s with
    | '!' :: r | '^' :: r => (true, r)
    | r => (false, r)
  match readSet true {} body with
  | .ok (ranges, rest) => some (.set negated ranges, rest)
  | .error .unclosed => some (.literal '[', s)
  | .error .emptyRange => none

/-- The tokens of two stars and the text after them. `front` holds the tokens before in reverse,
`last` is the character before the stars, and `inside` says whether the stars are in braces. -/
def doubleStar (inside : Bool) (last : Option Char) (front : List Token) (s : List Char) :
    List Token × List Char :=
  let plain := (Token.star :: Token.star :: front, s)
  if front.isEmpty then
    match s with
    | [] => ([.leading], [])
    | '/' :: r => ([.leading], r)
    | _ => plain
  else if last != some '/' && !(inside && (last == some ',' || last == some '\x7b')) then plain
  else
    let joined (token : Token) : List Token :=
      match front with
      | .leading :: _ | .trailing :: _ => front
      | _ :: rest => token :: rest
      | [] => [token]
    match s with
    | [] => (joined .trailing, [])
    | '/' :: r => (joined .between, r)
    | c :: r =>
      if inside && (c == ',' || c == '\x7d') then (joined .trailing, c :: r) else plain

mutual

/-- The tokens up to the end of the text or, in braces, up to the end of the branch; `front` holds
those read so far in reverse. -/
def readTokens (fuel : Nat) (inside : Bool) (last : Option Char) (front : List Token)
    (s : List Char) : Option (List Token × List Char) :=
  match fuel with
  | 0 => none
  | fuel + 1 =>
    match s with
    | [] => some (front.reverse, [])
    | '?' :: s => readTokens fuel inside (some '?') (.any :: front) s
    | '*' :: '*' :: s =>
      let (front, rest) := doubleStar inside last front s
      readTokens fuel inside (some (if rest.length < s.length then '/' else '*')) front rest
    | '*' :: s => readTokens fuel inside (some '*') (.star :: front) s
    | '[' :: s => do
      let (token, s) ← set? s
      readTokens fuel inside (some ']') (token :: front) s
    | '\\' :: c :: s => readTokens fuel inside (some c) (.literal c :: front) s
    | ['\\'] => none
    | '\x7b' :: s => do
      let (branches, s) ← readBranches fuel s
      readTokens fuel inside (some '\x7d') (.alternatives branches :: front) s
    | c :: s =>
      if c == '\x7d' then if inside then some (front.reverse, c :: s) else none
      else if c == ',' && inside then some (front.reverse, c :: s)
      else readTokens fuel inside (some c) (.literal c :: front) s

/-- The branches in braces, and the text after the closing brace. -/
def readBranches (fuel : Nat) (s : List Char) : Option (List (List Token) × List Char) :=
  match fuel with
  | 0 => none
  | fuel + 1 => do
    let (branch, s) ← readTokens fuel true (some ',') [] s
    match s with
    | '\x7d' :: s => pure ([branch], s)
    | ',' :: s =>
      let (branches, s) ← readBranches fuel s
      pure (branch :: branches, s)
    | _ => none

end

/-! ## Meaning -/

/-- A byte of a range. Both ends are written byte by byte, so the range itself runs from the last
byte of the one to the first byte of the other, and the bytes beside them stand for themselves. -/
def inRange (lo hi b : Char) : Bool :=
  let front := Text.encode [lo]
  let back := Text.encode [hi]
  if lo == hi then front.contains b
  else
    front.dropLast.contains b || back.tail.contains b
      || (front.getLast?.any (· ≤ b) && back.head?.any (b ≤ ·))

/-- A byte of a set. -/
def inSet (negated : Bool) (ranges : List (Char × Char)) (b : Char) : Bool :=
  (ranges.any fun (lo, hi) => inRange lo hi b) != negated

/-- Any byte. -/
def anything : Pattern := .many (.set fun _ => true)

/-- One thing after another, either of which may be missing. -/
def both : Option Pattern → Option Pattern → Option Pattern
  | some p, some q => some (.seq p q)
  | some p, none => some p
  | none, q => q

mutual

/-- What a token matches; braces around nothing say nothing. -/
def Token.pattern? : Token → Option Pattern
  | .literal c => some (.litChars (Text.encode [c]))
  | .any => some (.set (· != '/'))
  | .star => some (.many (.set (· != '/')))
  | .leading => some (.alt (.opt (.lit "/")) (.seq anything (.lit "/")))
  | .trailing => some (.seq (.lit "/") anything)
  | .between => some (.alt (.lit "/") (.seq (.lit "/") (.seq anything (.lit "/"))))
  | .set negated ranges => some (.set (inSet negated ranges))
  | .alternatives branches =>
    match branchPatterns branches with
    | [] => none
    | patterns => some (.oneOf patterns)

/-- What tokens in a row match, if they say anything. -/
def tokensPattern? : List Token → Option Pattern
  | [] => none
  | t :: ts => both t.pattern? (tokensPattern? ts)

/-- What the branches match that say anything. -/
def branchPatterns : List (List Token) → List Pattern
  | [] => []
  | b :: bs =>
    match tokensPattern? b with
    | none => branchPatterns bs
    | some p => p :: branchPatterns bs

end

/-- The pattern of a glob, which matches whole paths. -/
def globPattern? (glob : List Char) : Option Pattern := do
  let (tokens, rest) ← readTokens (2 * glob.length + 2) false none [] glob
  match tokens, rest with
  | [.leading], [] => pure anything
  | tokens, [] => pure (.seq ((tokensPattern? tokens).getD .empty) .textEnd)
  | _, _ => none

end Mend.Ignore
