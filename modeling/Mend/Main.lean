import Mend.CommandLine.Run

/-!
# The program

The files that a command may look at are read into a tree, the command runs on the tree, and what it
changed is written back.
-/

namespace Mend

/-- How deep directories are read. -/
def depthLimit : Nat := 64

/-- The names from the root to an absolute path. -/
def placeOf (p : String) : Place :=
  (Path.mk p).parts.filterMap fun
    | .name n => some n
    | _ => none

/-- Put a directory into a tree, with those above it. -/
def insertDirectory (t : FileTree) (place : Place) : FileTree :=
  (List.range (place.length + 1)).foldl (fun t n =>
    if (t.get? (place.take n)).isSome then t else t.set (place.take n) .directory) t

/-- Put an entry into a tree, with the directories above it. -/
def insertEntry (t : FileTree) (place : Place) (entry : Entry) : FileTree :=
  (insertDirectory t place.dropLast).set place entry

/-- Read what is at a path into a tree. Links keep their targets, which are read too. -/
def loadTree : Nat → FileTree → String → IO FileTree
  | 0, t, _ => pure t
  | fuel + 1, t, p => do
    let place := placeOf p
    if (t.get? place).any (· ≠ .directory) then return t
    let file := (← IO.currentDir) / p
    match ← (IO.FS.realPath file).toBaseIO with
    | .error _ => pure t
    | .ok target =>
      if target.toString ≠ p then
        loadTree fuel (insertEntry t place (.link ⟨target.toString⟩)) target.toString
      else if ← file.isDir then
        (← file.readDir).foldlM (fun t e => loadTree fuel t (p ++ "/" ++ e.fileName))
          (insertDirectory t place)
      else if ← file.pathExists then
        match ← (IO.FS.readBinFile file).toBaseIO with
        | .ok bytes => pure (insertEntry t place (.file bytes))
        | .error _ => pure t
      else pure t

/-- Read one entry of a directory above the project, if it is there. -/
def loadAbove (t : FileTree) (place : Place) : IO FileTree := do
  [".gitignore", ".ignore"].foldlM (fun t name => do
    match ← (IO.FS.readBinFile (Path.ofPlace (place ++ [name])).text).toBaseIO with
    | .ok bytes => pure (insertEntry t (place ++ [name]) (.file bytes))
    | .error _ => pure t) t

/-- Read a project, its lists of ignored files, and a store. -/
def loadWorkspace (root store : String) : IO FileTree := do
  let place := placeOf root
  let t ← loadTree depthLimit {} root
  let t ← (List.range place.length).foldlM (fun t n => loadAbove t (place.take n)) t
  loadTree depthLimit t store

/-- Write back what changed. -/
def saveChanges (before after : FileTree) : IO Unit := do
  for (place, entry) in after.entries do
    if before.get? place ≠ some entry then
      let p := (Path.ofPlace place).text
      match entry with
      | .directory => IO.FS.createDirAll p
      | .file bytes => IO.FS.writeBinFile p bytes
      | .link _ => pure ()
  for (place, entry) in before.entries do
    if (after.get? place).isNone && entry ≠ .directory then
      IO.FS.removeFile (Path.ofPlace place).text

/-- The time of a file that was just made. -/
def wallClock : IO Time := do
  let (_, p) ← IO.FS.createTempFile
  let m ← p.metadata
  IO.FS.removeFile p
  pure ⟨m.modified.sec, m.modified.nsec.toNat⟩

/-- The directory of caches. -/
def cacheDirectory : IO Path := do
  match ← IO.getEnv "XDG_CACHE_HOME", ← IO.getEnv "HOME" with
  | some dir, home =>
    if (Path.mk dir).isAbsolute then pure ⟨dir⟩
    else pure (home.elim ⟨"."⟩ fun h => (Path.mk h).join ".cache")
  | none, some home => pure ((Path.mk home).join ".cache")
  | none, none => pure ⟨"."⟩

/-- Run a command on the files at hand. -/
def runInvocation (i : CommandLine.Invocation) : IO UInt32 := do
  let here := (← IO.currentDir).toString
  let cache ← cacheDirectory
  let given := (Path.mk here).join i.path.text
  let root ← match ← (IO.FS.realPath given.text).toBaseIO with
    | .ok p => pure (Path.mk p.toString)
    | .error _ => pure given
  let fallback := i.store.or ((← IO.getEnv "APPMEDIC_STORE").map Path.mk)
  let store := (Path.mk here).join (fallback.getD (Store.homeFor {} cache root)).text
  let tree ← loadWorkspace root.text store.text
  let tree := { insertDirectory tree (placeOf here) with start := placeOf here }
  let seed := (← IO.getRandomBytes 15).toList.foldl (fun n b => n * 256 + b.toNat) 0
  let w : Workspace := { tree, clock := ← wallClock, serial := seed }
  let (reply, after) := { i with store := some store }.run cache w
  saveChanges tree after.tree
  IO.print reply.printed.out
  IO.eprint reply.printed.err
  match reply.failure with
  | none => pure 0
  | some e =>
    IO.eprintln ("Error: " ++ e.message)
    pure 1

end Mend

/-- Read the command line and run it. -/
def main (args : List String) : IO UInt32 := do
  match Mend.CommandLine.Invocation.read args with
  | .ok i => Mend.runInvocation i
  | .error .help =>
    IO.println Mend.CommandLine.usage
    pure 0
  | .error .version =>
    IO.println Mend.CommandLine.versionText
    pure 0
  | .error e =>
    IO.eprintln ("error: " ++ e.message)
    IO.eprintln Mend.CommandLine.usage
    pure (UInt32.ofNat e.exitCode)
