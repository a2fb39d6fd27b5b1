import Mend.Checksum
import Mend.FileTree
import Mend.Text.Word

/-!
# Where a project's records are kept

Each project has a directory of its own in the cache directory, named for the project and for a
digest of its path.
-/

namespace Mend.Store

/-- The letters, digits, hyphens and low lines of a name, at most twenty of them. -/
def readableName (name : String) : String :=
  String.ofList ((name.toList.filter fun c =>
    Text.isAlphanumeric c || c == '-' || c == '_').take 20)

/-- The name of a project's directory. -/
def projectKey (root : Path) : String :=
  let digest := Checksum.sha256 root.text.toUTF8
  readableName (root.fileName?.getD "project") ++ "-" ++ String.ofList (digest.toList.take 12)

/-- The directory of a project's records. A root that does not exist counts as it is written. -/
def homeFor (t : FileTree) (cache root : Path) : Path :=
  let root := match t.canonical root with
    | .ok p => p
    | .error _ => root
  (cache.join "appmedic").join (projectKey root)

end Mend.Store
