import Mend.Language
import Mend.Text.Offset

/-!
# Masking comments and string bodies

The rules read source text in which comments and the insides of strings are blanked, so that what
stands there is never taken for code. The lexer works step by step: from code state a step takes
one plain character, one whole comment, or one whole string with its quotes (`Step`). The steps in
order spell out the text (`Step.source`), and what the mask shows of them is `Step.masked`: a
hidden character becomes one space for each of its bytes, except that line feeds stay, so every
byte offset means the same in both texts.
-/

namespace Mend.Text.Mask

/-- What the lexer takes at once when it is in code state. -/
inductive Step where
  /-- A character of code. -/
  | plain (c : Char)
  /-- A comment, hidden from its first character to its last. -/
  | comment (text : List Char)
  /-- A string: the quotes are shown and the body between them is hidden. The closing part is a
  line feed where the line ends first, and empty where the text ends first. -/
  | quoted (opening body closing : List Char)
  deriving Repr, DecidableEq

/-- A hidden character: a space for each byte, but a line feed stays. -/
def blank (c : Char) : List Char :=
  if c = '\n' then [c] else List.replicate c.utf8Size ' '

/-- Hide a text. -/
def hide (s : List Char) : List Char := s.flatMap blank

namespace Step

/-- The text that a step takes. -/
def source : Step → List Char
  | plain c => [c]
  | comment text => text
  | quoted opening body closing => opening ++ body ++ closing

/-- What the mask shows of a step. -/
def masked : Step → List Char
  | plain c => [c]
  | comment text => hide text
  | quoted opening body closing => opening ++ hide body ++ closing

end Step

/-- The body of a string and what follows it, which starts with the closing quote, with the line
feed that cuts the string off, or is empty. A backslash takes the next character along. -/
def stringBody (quote : Char) (multiline : Bool) : List Char → List Char × List Char
  | [] => ([], [])
  | c :: s =>
    if c = '\\' then
      match s with
      | [] => ([c], [])
      | d :: s =>
        let (body, rest) := stringBody quote multiline s
        (c :: d :: body, rest)
    else if (c = '\n' && !multiline) || c = quote then ([], c :: s)
    else
      let (body, rest) := stringBody quote multiline s
      (c :: body, rest)

/-- The body of a string between triple quotes and what follows it, which starts with the closing
quotes or is empty. -/
def tripleBody (quote : Char) : List Char → List Char × List Char
  | [] => ([], [])
  | c :: s =>
    if [quote, quote, quote].isPrefixOf (c :: s) then ([], c :: s)
    else
      let (body, rest) := tripleBody quote s
      (c :: body, rest)

/-- The rest of a block comment after its opening mark, and what follows it. `depth` is the number
of further comments that are open around this one. An opening mark inside is taken whole whether or
not comments nest. -/
def blockBody (nested : Bool) : Nat → List Char → List Char × List Char
  | _, [] => ([], [])
  | _, [c] => ([c], [])
  | depth, c :: d :: s =>
    if c = '/' && d = '*' then
      let (body, rest) := blockBody nested (if nested then depth + 1 else depth) s
      (c :: d :: body, rest)
    else if c = '*' && d = '/' then
      match depth with
      | 0 => ([c, d], s)
      | depth + 1 =>
        let (body, rest) := blockBody nested depth s
        (c :: d :: body, rest)
    else
      let (body, rest) := blockBody nested depth (d :: s)
      (c :: body, rest)

/-- After a single quote: a backslash, or one single-byte character and another single quote. -/
def isCharLiteral : List Char → Bool
  | [] => false
  | [c] => c = '\\'
  | c :: d :: _ => c = '\\' || (c.utf8Size = 1 && d = '\'')

/-- A string with one-character quotes that starts with `quote`; `s` follows the opening quote. -/
def quotedStep (quote : Char) (multiline : Bool) (s : List Char) : Step × List Char :=
  let (body, rest) := stringBody quote multiline s
  (.quoted [quote] body (rest.take 1), rest.drop 1)

/-- The step that the lexer takes at `c`, with `s` the text after it, and the rest of the text. -/
def step (language : Language) (c : Char) (s : List Char) : Step × List Char :=
  if c = '/' && s.head? = some '/' then
    (.comment (c :: s.takeWhile (· ≠ '\n')), s.dropWhile (· ≠ '\n'))
  else if c = '/' && s.head? = some '*' then
    let (body, rest) := blockBody language.nestedBlockComments 0 (s.drop 1)
    (.comment (c :: '*' :: body), rest)
  else if (c = '"' || c = '\'') && [c, c].isPrefixOf s && !language.templateLiterals then
    let (body, rest) := tripleBody c (s.drop 2)
    (.quoted [c, c, c] body (rest.take 3), rest.drop 3)
  else if c = '`' && language.templateLiterals then quotedStep c true s
  else if c = '"' then quotedStep c false s
  else if c = '\'' && (language.singleQuoteStrings || isCharLiteral s) then quotedStep c false s
  else (.plain c, s)

/-! ## Each step shortens the text -/

theorem length_stringBody (quote : Char) (multiline : Bool) (s : List Char) :
    (stringBody quote multiline s).2.length ≤ s.length := by
  fun_induction stringBody quote multiline s <;> simp_all <;> omega

theorem length_tripleBody (quote : Char) (s : List Char) :
    (tripleBody quote s).2.length ≤ s.length := by
  fun_induction tripleBody quote s <;> simp_all
  omega

theorem length_blockBody (nested : Bool) (depth : Nat) (s : List Char) :
    (blockBody nested depth s).2.length ≤ s.length := by
  fun_induction blockBody nested depth s <;> simp_all <;> omega

theorem length_dropWhile_le (p : Char → Bool) :
    ∀ s : List Char, (s.dropWhile p).length ≤ s.length
  | [] => Nat.le_refl _
  | c :: s => by
    rw [List.dropWhile_cons]
    split
    · exact Nat.le_succ_of_le (length_dropWhile_le p s)
    · exact Nat.le_refl _

theorem length_step (language : Language) (c : Char) (s : List Char) :
    (step language c s).2.length ≤ s.length := by
  unfold step
  split
  · exact length_dropWhile_le _ s
  split
  · have := length_blockBody language.nestedBlockComments 0 (s.drop 1)
    simp only [List.length_drop] at this
    simp only
    omega
  split
  · have := length_tripleBody c (s.drop 2)
    simp only [List.length_drop] at this ⊢
    omega
  split
  · have := length_stringBody c true s
    simp only [quotedStep, List.length_drop]
    omega
  split
  · have := length_stringBody c false s
    simp only [quotedStep, List.length_drop]
    omega
  split
  · have := length_stringBody c false s
    simp only [quotedStep, List.length_drop]
    omega
  · exact Nat.le_refl _

/-- The steps of a whole text, from code state. -/
def steps (language : Language) : List Char → List Step
  | [] => []
  | c :: s => (step language c s).1 :: steps language (step language c s).2
termination_by s => s.length
decreasing_by
  have := length_step language c s
  simp only [List.length_cons]
  omega

/-- The text with comments and string bodies hidden. -/
def mask (language : Language) (s : List Char) : List Char :=
  (steps language s).flatMap Step.masked

end Mend.Text.Mask
