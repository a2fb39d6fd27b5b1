import Mend.FileTree
import Mend.Ignore.Glob
import Mend.Text.Lines

/-!
# Which files are left out

A directory may hold three lists of globs: its file `.ignore`, its file `.gitignore` and the exclude
file of its repository. The last glob of a list that matches decides. Of several directories the
nearest one decides, and the three lists go in that order. The lists of a repository count only
inside one, and not beyond the nearest one.
-/

namespace Mend.Ignore

/-- One line of a list. -/
structure Line where
  pattern : Pattern
  /-- What matches is kept. -/
  keeps : Bool
  /-- Only directories match. -/
  onlyDirectories : Bool

/-- A line without the blanks at its end, unless the last of them is escaped. -/
def trimLine (line : List Char) : List Char :=
  if Text.endsWith line "\\ " then line else Text.trimEnd line

/-- What a line of a list says, if anything. A glob without a slash inside matches at any depth; one
that ends in two stars matches only what is below. -/
def Line.parse? (raw : List Char) : Option Line := do
  let line := trimLine raw
  if line.isEmpty || raw.head? == some '#' then none
  else
    let escaped := Text.startsWith line "\\!" || Text.startsWith line "\\#"
    let keeps := !escaped && line.head? == some '!'
    let body := if escaped || keeps then line.drop 1 else line
    let rooted := body.head? == some '/'
    let body := if rooted && !escaped then body.drop 1 else body
    let onlyDirectories := body.getLast? == some '/'
    let body :=
      if onlyDirectories then
        let inner := body.dropLast
        if inner.getLast? == some '\\' then inner.dropLast else inner
      else body
    let anywhere := !rooted && !body.contains '/' && body != "**".toList
    let glob := if anywhere then "**/".toList ++ body else body
    let glob := if Text.endsWith glob "/**" then glob ++ "/*".toList else glob
    let pattern ← globPattern? glob
    pure ⟨pattern, keeps, onlyDirectories⟩

/-- The lines of a file, each with the line feed that ends it. -/
def bytePieces : List UInt8 → List (List UInt8)
  | [] => []
  | b :: s =>
    if b = 10 then [b] :: bytePieces s
    else match bytePieces s with
      | [] => [[b]]
      | p :: ps => (b :: p) :: ps

/-- The lines of a file up to the first one that is not UTF-8. -/
def readableLines (bytes : ByteArray) : List (List Char) :=
  let lines := (bytePieces bytes.toList).map fun line => String.fromUTF8? ⟨line.toArray⟩
  (lines.takeWhile Option.isSome).map fun line => (line.getD "").toList

/-- A line without the byte order marks it starts with. -/
def withoutMarks (line : List Char) : List Char := line.dropWhile (· == '\uFEFF')

/-- The lines of a list that say something. -/
def parseList (bytes : ByteArray) : List Line :=
  let lines := match readableLines bytes with
    | [] => []
    | first :: rest => withoutMarks first :: rest
  lines.filterMap fun line => Line.parse? (Text.stripTerminator line)

/-- What a list says about a path. -/
inductive Verdict where
  | ignored | kept
  deriving Repr, DecidableEq

/-- The verdict of the last line that matches. -/
def verdict? (lines : List Line) (path : List Char) (isDirectory : Bool) : Option Verdict :=
  (lines.reverse.find? fun l =>
    (!l.onlyDirectories || isDirectory) && l.pattern.matchesStart path).map fun l =>
      if l.keeps then .kept else .ignored

/-- The lists of one directory. -/
structure Lists where
  plain : List Line := []
  repository : List Line := []
  exclude : List Line := []
  /-- The directory is the root of a repository. -/
  isRepository : Bool := false

/-- The list in a file; a file that cannot be read has none. -/
def listAt (t : FileTree) (p : Path) : List Line :=
  match t.read p with
  | .ok bytes => parseList bytes
  | .error _ => []

/-- The lists of a directory. -/
def Lists.of (t : FileTree) (repositories : Bool) (dir : Path) : Lists :=
  { plain := listAt t (dir.join ".ignore")
    repository := if repositories then listAt t (dir.join ".gitignore") else []
    exclude := if repositories then listAt t (dir.join ".git/info/exclude") else []
    isRepository :=
      repositories && (t.contains (dir.join ".git") || t.contains (dir.join ".jj")) }

/-- The lists of a directory at a depth. -/
abbrev Level := Nat × Lists

/-- What the lists from the nearest directory on say about the entry with the given names. `inRepo`
says that the entry lies in a repository whose root has not been passed yet. -/
def verdicts (names : List String) (isDirectory : Bool) : Bool → List Level →
    Option Verdict × Option Verdict × Option Verdict
  | _, [] => (none, none, none)
  | inRepo, (depth, lists) :: levels =>
    let path := Text.encode (String.intercalate "/" (names.drop depth)).toList
    let (plain, repository, exclude) :=
      verdicts names isDirectory (inRepo && !lists.isRepository) levels
    let of (lines : List Line) := verdict? lines path isDirectory
    ((of lists.plain).or plain,
     if inRepo then (of lists.repository).or repository else none,
     if inRepo then (of lists.exclude).or exclude else none)

/-- The entry with the given names is left out; levels come nearest first. -/
def isIgnored (levels : List Level) (names : List String) (isDirectory : Bool) : Bool :=
  let inRepo := levels.any fun l => l.2.isRepository
  let (plain, repository, exclude) := verdicts names isDirectory inRepo levels
  (plain.or (repository.or exclude)) == some .ignored

end Mend.Ignore
