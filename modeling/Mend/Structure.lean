import Mend.ApiCall
import Mend.FileRole
import Mend.Walk
import Mend.Workspace

/-!
# What a project consists of

The structure of a project is its source files with their roles, and the places where they call a
server.
-/

namespace Mend

/-- The source files of a project. -/
structure Structure where
  root : Path
  platform : Platform
  files : List (Path × FileRole)
  apiCalls : List ApiCall

namespace Structure

/-- The role of a file of the project. -/
def roleOf? (s : Structure) (p : Path) : Option FileRole :=
  (s.files.find? fun f => f.1.same p).map (·.2)

/-- The structure that a walk finds. A file that cannot be read has no calls. -/
def ofWalk (walk : Walk) (platform : Platform) : Work Structure := do
  let root ← Work.reading walk.root fun t => t.canonical walk.root
  let t ← Work.tree
  let paths := walk.files t
  pure {
    root
    platform
    files := paths.map fun p => (p, FileRole.ofPath p)
    apiCalls := paths.flatMap fun p =>
      match t.readText p with
      | .ok content => ApiCall.findAll p content platform
      | .error _ => [] }

end Structure

end Mend
