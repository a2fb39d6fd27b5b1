import Mend.Ignore.Rules
import Mend.Platform

/-!
# Walking a project

A walk lists the source files below a directory: those with a wanted extension that no list of
ignored files leaves out, in directories that are not excluded by name and not too deep. Links are
followed, but not into a directory that the walk is already in. Each file is listed once, under its
path without links.
-/

namespace Mend

/-- What a walk covers. -/
structure Walk where
  root : Path
  /-- The wanted extensions; none means every file. -/
  extensions : List String := []
  /-- The root has depth zero; files in a directory of this depth are still listed. -/
  maxDepth : Nat := 10
  /-- Names of directories that are not entered. -/
  exclude : List String := []
  respectGitignore : Bool := true

namespace Walk

/-- Names of directories that are not entered unless the configuration says otherwise. -/
def defaultExcludes : List String :=
  [".git", ".svn", ".hg", "node_modules", "build", "dist", "out", "target", ".dart_tool", ".gradle",
   "Pods", "DerivedData", ".next", ".expo", "coverage", "vendor", ".appmedic"]

/-- The file has a wanted extension. -/
def wants (w : Walk) (p : Path) : Bool :=
  w.extensions.isEmpty || p.extension?.any w.extensions.contains

/-- A directory with this name at this depth is entered. -/
def enters (w : Walk) (name : String) (depth : Nat) : Bool :=
  depth ≤ w.maxDepth && !w.exclude.contains name

/-- Where a walk is. -/
structure Position where
  /-- The path of the directory, as walked. -/
  path : Path
  /-- The names from the root of the tree to the directory, as walked. -/
  names : List String
  depth : Nat
  /-- The places of the directories on the way here, this one first. -/
  above : List Place
  /-- The lists of ignored files, nearest first. -/
  levels : List Ignore.Level

/-- The files below a directory, without links; the fuel bounds the depth. -/
def filesBelow (w : Walk) (t : FileTree) : Nat → Position → List Path
  | 0, _ => []
  | fuel + 1, here =>
    let levels :=
      (here.names.length, Ignore.Lists.of t w.respectGitignore here.path) :: here.levels
    (t.names (here.above.headD [])).flatMap fun name =>
      let path := here.path.join name
      let names := here.names ++ [name]
      match t.resolve path with
      | .error _ => []
      | .ok place =>
        match t.get? place with
        | some .directory =>
          let isLink := place != here.above.headD [] ++ [name]
          if (isLink && here.above.contains place) || Ignore.isIgnored levels names true
              || !w.enters name (here.depth + 1) then []
          else filesBelow w t fuel ⟨path, names, here.depth + 1, place :: here.above, levels⟩
        | some (.file _) =>
          if w.wants path && !Ignore.isIgnored levels names false then [Path.ofPlace place] else []
        | _ => []

/-- The lists of ignored files of the directories above a place, nearest first. -/
def levelsAbove (w : Walk) (t : FileTree) (place : Place) : List Ignore.Level :=
  if w.respectGitignore then
    (List.range place.length).reverse.map fun depth =>
      (depth, Ignore.Lists.of t true (.ofPlace (place.take depth)))
  else []

/-- The files that a walk finds, in its own order and perhaps more than once. -/
def found (w : Walk) (t : FileTree) : List Path :=
  match t.resolve w.root with
  | .error _ => []
  | .ok place =>
    match t.get? place with
    | some .directory =>
      filesBelow w t ((t.entries.length + 2) * (t.entries.length + 2))
        ⟨w.root, place, 0, [place], levelsAbove w t place⟩
    | some (.file _) => if w.wants w.root then [Path.ofPlace place] else []
    | _ => []

/-- Each path of a list in order, without those that stood earlier. -/
def distinct (paths : List Path) : List Path :=
  paths.foldl (fun kept p => if kept.contains p then kept else kept ++ [p]) []

/-- The files that a walk lists, in the order of paths. -/
def files (w : Walk) (t : FileTree) : List Path :=
  (distinct (w.found t)).mergeSort fun p q => p.compare q != .gt

end Walk

end Mend
