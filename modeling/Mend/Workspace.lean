import Mend.Store.Records

/-!
# Workspaces

A workspace is everything that operations read and change: the files and the disk that they are on,
a clock, a supply of ids, and the store. Operations run in `Work`: they may fail, and what they did
before they failed stays done.
-/

namespace Mend

/-- The records in use, and the directory that holds them, if any does. -/
structure Store where
  home : Option Path := none
  records : Records := {}

/-- What a disk does where a file is to be replaced. New bytes are written to a file beside the old
one, which takes its place in the end: if anything goes wrong the old file is still there. -/
structure Disk where
  /-- Why a file of a tree is not replaced by these bytes at a moment, and the path that is at
  fault; nothing if it is replaced. -/
  refuses : Time → FileTree → Path → ByteArray → Option (Path × IoError) := fun _ _ _ _ => none

/-- The files, the disk, the clock, the supply of ids and the store. -/
structure Workspace where
  tree : FileTree := {}
  disk : Disk := {}
  /-- The moment that the clock showed last. -/
  clock : Time := ⟨0, 0⟩
  /-- The moment that the clock shows after another one. -/
  tick : Time → Time := Time.next
  /-- How many ids were given out. -/
  serial : Nat := 0
  store : Store := {}

/-- An operation on a workspace that may fail. -/
abbrev Work := ExceptT Fault (StateM Workspace)

namespace Work

/-- Fail with a fault unless there is a value. -/
def ofExcept {α : Type} : Except Fault α → Work α
  | .ok a => pure a
  | .error e => throw e

/-- The outcome of an operation, faults included. -/
def attempt {α : Type} (w : Work α) : Work (Except Fault α) :=
  ExceptT.mk do
    let r ← w.run
    pure (.ok r)

/-- Read the clock. -/
def now : Work Time :=
  modifyGet fun w => (w.tick w.clock, { w with clock := w.tick w.clock })

/-- The hexadecimal digits of a number, the lowest first, at least thirty of them. -/
def idDigits (n : Nat) : List Char :=
  let digits := (Nat.toDigits 16 n).reverse
  digits ++ List.replicate (30 - digits.length) '0'

/-- The id with a number: thirty digits of its own in five groups, with the marks of a random id. -/
def idOf (n : Nat) : String :=
  let d := idDigits n
  String.ofList (d.take 8 ++ ['-'] ++ (d.drop 8).take 4 ++ ['-', '4'] ++ (d.drop 12).take 3
    ++ ['-', '8'] ++ (d.drop 15).take 3 ++ ['-'] ++ d.drop 18)

/-- An id that was not given out before. -/
def freshId : Work String :=
  modifyGet fun w => (idOf w.serial, { w with serial := w.serial + 1 })

/-- The file tree. -/
def tree : Work FileTree := do
  pure (← get).tree

/-- Read from the file tree; a failure names the path. -/
def reading {α : Type} (p : Path) (f : FileTree → Except IoError α) : Work α := do
  match f (← tree) with
  | .ok a => pure a
  | .error e => throw (.io p e)

/-- Change the file tree; a failure names the path. -/
def changing (p : Path) (f : FileTree → Except IoError FileTree) : Work Unit := do
  match f (← tree) with
  | .ok t => modify fun w => { w with tree := t }
  | .error e => throw (.io p e)

/-- The bytes of a file. -/
def read (p : Path) : Work ByteArray := reading p fun t => t.read p

/-- The text of a file. -/
def readText (p : Path) : Work String := reading p fun t => t.readText p

/-- The directory of a path; the current one if the path is only a name. -/
def directoryOf (p : Path) : Path :=
  match p.parent? with
  | some d => if d.text.isEmpty then ⟨"."⟩ else d
  | none => ⟨"."⟩

/-- Replace a file as a whole, or leave it as it is. Where the directory cannot be used, the fault
names the directory. Only then is the disk asked, and last of all a directory stands in the way. -/
def write (p : Path) (bytes : ByteArray) : Work Unit := do
  let w ← get
  match w.tree.write p bytes, w.disk.refuses w.clock w.tree p bytes with
  | .ok t, none => modify fun w => { w with tree := t }
  | .ok _, some (place, cause) => throw (.io place cause)
  | .error .isDirectory, some (place, cause) => throw (.io place cause)
  | .error .isDirectory, none => throw (.io p .isDirectory)
  | .error e, _ => throw (.io (directoryOf p) e)

/-- Make a directory and those above it. -/
def makeDirectories (p : Path) : Work Unit := changing p fun t => t.makeDirectories p

end Work

end Mend
