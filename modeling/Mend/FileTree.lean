import Mend.Path

/-!
# File trees

A file tree maps places to what is there: bytes, a directory, or a link to another path. A place is
the list of names from the root. A path is resolved step by step and links are followed, as long as
there are not too many of them. Relative paths start at a place of the tree's own.

Operations that change a tree give the new tree or say why the old one stays (`IoError`). They fail
only for what is in the tree. What else can go wrong when a file is replaced is left to the disk of a
workspace. To add to a file or to make a directory is taken to succeed, and as a whole, wherever the
tree admits it.
-/

namespace Mend

/-- Why a file could not be used. -/
inductive IoError where
  | notFound
  | alreadyExists
  | notDirectory
  | isDirectory
  | tooManyLinks
  /-- The bytes are no UTF-8 text. -/
  | notText
  /-- Anything that is not due to what is in the tree, in the words of the system. -/
  | other (text : String)
  deriving Repr, DecidableEq

namespace IoError

/-- The error in words. -/
def message : IoError → String
  | notFound => "No such file or directory (os error 2)"
  | alreadyExists => "File exists (os error 17)"
  | notDirectory => "Not a directory (os error 20)"
  | isDirectory => "Is a directory (os error 21)"
  | tooManyLinks => "Too many levels of symbolic links (os error 40)"
  | notText => "stream did not contain valid UTF-8"
  | other text => text

end IoError

/-- The names from the root to a place. -/
abbrev Place := List String

/-- The path of a place. -/
def Path.ofPlace (place : Place) : Path := .ofNames place

/-- What is at a place. -/
inductive Entry where
  | file (bytes : ByteArray)
  | directory
  | link (target : Path)

/-- Entries can be told apart; files by their bytes. -/
instance : DecidableEq Entry := fun a b =>
  match a, b with
  | .file x, .file y =>
    if h : x.data = y.data then
      isTrue (by cases x; cases y; cases h; rfl)
    else isFalse (by rintro ⟨⟩; exact h rfl)
  | .directory, .directory => isTrue rfl
  | .link p, .link q =>
    if h : p = q then isTrue (by rw [h]) else isFalse (by rintro ⟨⟩; exact h rfl)
  | .file _, .directory | .file _, .link _ | .directory, .file _ | .directory, .link _
  | .link _, .file _ | .link _, .directory => isFalse nofun

/-- A file tree. The root is always a directory. -/
structure FileTree where
  entries : List (Place × Entry) := []
  /-- Where relative paths start. -/
  start : Place := []

namespace FileTree

/-- What is at a place; links are not followed. -/
def get? (t : FileTree) (place : Place) : Option Entry :=
  if place.isEmpty then some .directory
  else (t.entries.find? fun e => e.1 == place).map (·.2)

/-- Put something at a place. -/
def set (t : FileTree) (place : Place) (entry : Entry) : FileTree :=
  if t.entries.any fun e => e.1 == place then
    { t with entries := t.entries.map fun e => if e.1 == place then (place, entry) else e }
  else { t with entries := t.entries ++ [(place, entry)] }

/-- Take away what is at a place and below it. -/
def erase (t : FileTree) (place : Place) : FileTree :=
  { t with entries := t.entries.filter fun e => !place.isPrefixOf e.1 }

/-- The names in a directory. -/
def names (t : FileTree) (place : Place) : List String :=
  t.entries.filterMap fun (p, _) =>
    if p.dropLast == place then p.getLast? else none

/-- How many links are followed on the way to one place. -/
def linkLimit : Nat := 40

/-- The place that the steps from `here` on lead to, following at most `links` links. With `fresh`
the last name need not be there. -/
def follow (t : FileTree) (fresh : Bool) (links : Nat) (here : Place) (parts : List Path.Part) :
    Except IoError Place :=
  match parts with
  | [] => .ok here
  | .root :: rest => follow t fresh links [] rest
  | .here :: rest => follow t fresh links here rest
  | .up :: rest =>
    if t.get? here = some .directory then follow t fresh links here.dropLast rest
    else .error .notDirectory
  | .name n :: rest =>
    if t.get? here = some .directory then
      match t.get? (here ++ [n]) with
      | none => if fresh && rest.isEmpty then .ok (here ++ [n]) else .error .notFound
      | some (.link target) =>
        match links with
        | 0 => .error .tooManyLinks
        | links + 1 => follow t fresh links here (target.parts ++ rest)
      | some _ => follow t fresh links (here ++ [n]) rest
    else .error .notDirectory
termination_by (links, parts.length)

/-- The place of a path, links followed. The empty path leads nowhere. -/
def resolve (t : FileTree) (p : Path) : Except IoError Place :=
  if p.text.isEmpty then .error .notFound else t.follow false linkLimit t.start p.parts

/-- The place of a file to be written, links followed; the file need not be there. -/
def destination (t : FileTree) (p : Path) : Except IoError Place :=
  if p.text.isEmpty then .error .notFound else t.follow true linkLimit t.start p.parts

/-- The place of a path whose last step is not followed and need not be there; the directory that it
is in has to be. -/
def placeFor (t : FileTree) (p : Path) : Except IoError Place := do
  match p.parts.getLast? with
  | some (.name n) =>
    let parent ← t.follow false linkLimit t.start p.parts.dropLast
    if t.get? parent = some .directory then pure (parent ++ [n]) else .error .notDirectory
  | _ => t.resolve p

/-- What a path leads to. -/
def lookup (t : FileTree) (p : Path) : Except IoError Entry := do
  let place ← t.resolve p
  match t.get? place with
  | some e => pure e
  | none => .error .notFound

/-- The path without links, dots and repeated slashes. -/
def canonical (t : FileTree) (p : Path) : Except IoError Path := (t.resolve p).map .ofPlace

/-- The path leads to a directory. -/
def isDirectory (t : FileTree) (p : Path) : Bool :=
  match t.lookup p with
  | .ok .directory => true
  | _ => false

/-- The path leads somewhere. -/
def contains (t : FileTree) (p : Path) : Bool :=
  match t.lookup p with
  | .ok _ => true
  | .error _ => false

/-! ## Reading -/

/-- The bytes of a file. -/
def read (t : FileTree) (p : Path) : Except IoError ByteArray := do
  match ← t.lookup p with
  | .file bytes => pure bytes
  | _ => .error .isDirectory

/-- The text of a file. -/
def readText (t : FileTree) (p : Path) : Except IoError String := do
  let bytes ← t.read p
  match String.fromUTF8? bytes with
  | some s => pure s
  | none => .error .notText

/-! ## Writing -/

/-- Replace a file as a whole. A link at the path is replaced, not followed. -/
def write (t : FileTree) (p : Path) (bytes : ByteArray) : Except IoError FileTree := do
  let place ← t.placeFor p
  if t.get? place = some .directory then .error .isDirectory
  else pure (t.set place (.file bytes))

/-- Put bytes into a file, which is made if need be. A link at the path is followed. -/
def overwrite (t : FileTree) (p : Path) (bytes : ByteArray) : Except IoError FileTree := do
  let place ← t.destination p
  if t.get? place = some .directory then .error .isDirectory
  else pure (t.set place (.file bytes))

/-- Add bytes at the end of a file, which is made if need be. A link at the path is followed. -/
def append (t : FileTree) (p : Path) (bytes : ByteArray) : Except IoError FileTree := do
  let place ← t.destination p
  match t.get? place with
  | some (.file old) => pure (t.set place (.file (old ++ bytes)))
  | none => pure (t.set place (.file bytes))
  | _ => .error .isDirectory

/-- Make one directory. -/
def makeDirectory (t : FileTree) (p : Path) : Except IoError FileTree := do
  let place ← t.placeFor p
  if (t.get? place).isSome then .error .alreadyExists else pure (t.set place .directory)

/-- Make a directory and those above it that are missing; the path is given by its steps. Without
steps there is nothing to make. -/
def makeDirectoriesOf (t : FileTree) (parts : List Path.Part) : Except IoError FileTree :=
  if h : parts = [] then .ok t
  else
    let p := Path.ofParts parts
    match t.makeDirectory p with
    | .ok t => .ok t
    | .error .notFound => do
      have : parts.dropLast.length < parts.length := by
        have := List.length_pos_iff.2 h
        simp
        omega
      let t ← t.makeDirectoriesOf parts.dropLast
      match t.makeDirectory p with
      | .ok t => pure t
      | .error e => if t.isDirectory p then pure t else .error e
    | .error e => if t.isDirectory p then .ok t else .error e
termination_by parts.length

/-- Make a directory and those above it that are missing. -/
def makeDirectories (t : FileTree) (p : Path) : Except IoError FileTree :=
  t.makeDirectoriesOf p.parts

end FileTree

end Mend
