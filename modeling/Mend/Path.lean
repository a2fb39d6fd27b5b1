import Mend.Text.Search

/-!
# File paths

A path keeps the text it was written with. Two paths are the same place when their parts are the
same: repeated slashes and a dot between slashes mean nothing. Paths sort part by part, not byte by
byte, so `a/z` comes before `a-b`.
-/

namespace Mend

/-- A file path, as written. -/
structure Path where
  text : String
  deriving Repr, DecidableEq

namespace Path

/-- One step of a path. -/
inductive Part where
  | root
  | here
  | up
  | name (s : String)
  deriving Repr, DecidableEq

/-- Where a part stands among its kind's neighbours: the root first, names last. -/
def Part.rank : Part → Nat
  | root => 0
  | here => 1
  | up => 2
  | name _ => 3

/-- The order of parts: by kind, names by code points. -/
def Part.compare (a b : Part) : Ordering :=
  match a, b with
  | .name s, .name t => if s < t then .lt else if s == t then .eq else .gt
  | a, b => Ord.compare a.rank b.rank

/-- The texts between the slashes. -/
def segments (s : List Char) : List (List Char) :=
  match s with
  | [] => [[]]
  | c :: s =>
    if c = '/' then [] :: segments s
    else match segments s with
      | [] => [[c]]
      | p :: ps => (c :: p) :: ps

/-- The steps of a path. A dot counts only where the path starts with it. -/
def parts (p : Path) : List Part :=
  let segs := segments p.text.toList
  let absolute := p.text.toList.head? == some '/'
  let named := segs.filterMap fun seg =>
    if seg == [] || seg == ['.'] then none
    else if seg == ['.', '.'] then some .up
    else some (.name (String.ofList seg))
  if absolute then .root :: named
  else if segs.head? == some ['.'] then .here :: named
  else named

/-- The path starts at the root. -/
def isAbsolute (p : Path) : Bool := p.text.toList.head? == some '/'

/-- Both paths have the same steps. -/
def same (p q : Path) : Bool := p.parts == q.parts

/-- Compare two lists of steps, the first difference deciding. -/
def compareParts : List Part → List Part → Ordering
  | [], [] => .eq
  | [], _ :: _ => .lt
  | _ :: _, [] => .gt
  | a :: as, b :: bs =>
    match a.compare b with
    | .eq => compareParts as bs
    | o => o

/-- The order of paths. -/
def compare (p q : Path) : Ordering := compareParts p.parts q.parts

/-- The last step, if it is a name. -/
def fileName? (p : Path) : Option String :=
  match p.parts.getLast? with
  | some (.name s) => some s
  | _ => none

/-- Split a file name at its last dot. A dot at the start of the name does not count. -/
def splitName (name : String) : String × Option String :=
  let back := name.toList.reverse
  let extension := back.takeWhile (· ≠ '.')
  match back.dropWhile (· ≠ '.') with
  | '.' :: stem =>
    if stem.isEmpty then (name, none)
    else (String.ofList stem.reverse, some (String.ofList extension.reverse))
  | _ => (name, none)

/-- What follows the last dot of the file name. -/
def extension? (p : Path) : Option String := p.fileName?.bind fun n => (splitName n).2

/-- The file name without its extension. -/
def fileStem? (p : Path) : Option String := p.fileName?.map fun n => (splitName n).1

/-- A path below another one. An absolute path stands for itself. -/
def join (p : Path) (relative : String) : Path :=
  if relative.toList.head? == some '/' then ⟨relative⟩
  else if p.text.isEmpty || p.text.toList.getLast? == some '/' then ⟨p.text ++ relative⟩
  else ⟨p.text ++ "/" ++ relative⟩

/-- The names of a list of steps, with slashes between them. -/
def ofNames (names : List String) : Path := ⟨"/" ++ String.intercalate "/" names⟩

/-- The text of one step. -/
def Part.text : Part → String
  | root => ""
  | here => "."
  | up => ".."
  | name s => s

/-- The path of a list of steps. -/
def ofParts (parts : List Part) : Path :=
  match parts with
  | [.root] => ⟨"/"⟩
  | parts => ⟨String.intercalate "/" (parts.map Part.text)⟩

/-- The path without its last step. -/
def parent? (p : Path) : Option Path :=
  match p.parts.getLast? with
  | some (.name _) | some .up | some .here => some (ofParts p.parts.dropLast)
  | _ => none

/-- The steps below `root`, if the path starts with it. -/
def relativeParts? (root p : Path) : Option (List Part) :=
  let r := root.parts
  let q := p.parts
  if r.isPrefixOf q then some (q.drop r.length) else none

/-- The path seen from `root`; a path elsewhere stays as it is. -/
def relativeTo (root p : Path) : Path :=
  match relativeParts? root p with
  | some parts => ofParts parts
  | none => p

end Path

end Mend
