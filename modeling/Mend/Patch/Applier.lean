import Mend.Patch.Backup
import Mend.Patch.Merge
import Mend.Rule.Context
import Mend.Text.Balance

/-!
# Patching files

To apply a fix is to copy the file, write the patched text and, if asked, check that its brackets
are still balanced. A file that fails the check is put back as it was before the fault is raised.
-/

namespace Mend.Patch

/-- How files are patched. -/
structure Applier where
  /-- The backup directory. -/
  backups : Path
  locator : Locator := {}
  /-- Check the patched text. -/
  validate : Bool := true
  deriving Repr, DecidableEq

/-- A fix that was applied. -/
structure Outcome where
  placement : Placement
  backup : Backup
  /-- The confidence of the fix, less if the snippet had drifted and none for a comment. -/
  confidence : Nat
  deriving Repr, DecidableEq

/-- The confidence of a fix once it is placed: three fifths where the snippet had drifted. -/
def placedConfidence (confidence : Nat) : Placement → Nat
  | .exact => confidence
  | .anchored => confidence * 3 / 5
  | .manualComment => 0

/-- The path that a file is known by: without links if it exists, else as written. -/
def target (file : Path) : Work Path := do
  match (← Work.tree).canonical file with
  | .ok p => pure p
  | .error _ => pure file

/-- The language of a file; files of no known language count as scripts. -/
def languageOf (file : Path) : Language := file.language?.getD .javaScript

namespace Applier

/-- Apply a fix to the file at a path. -/
def applyTo (a : Applier) (path : Path) (fix : Fix) : Work Outcome := do
  let old ← Work.readText path
  let backup ← Backup.create a.backups path old.toUTF8
  let language := languageOf path
  let (new, placement) := patched a.locator old.toList fix language
  Work.write path (String.ofList new).toUTF8
  if a.validate then
    match Text.sanityCheck language old.toList new with
    | .ok _ => pure ()
    | .error reason =>
      Backup.restore backup.path path
      throw (.validation path reason)
  pure ⟨placement, backup, placedConfidence fix.confidence placement⟩

/-- Apply a fix to its file. -/
def apply (a : Applier) (fix : Fix) : Work Outcome := do
  a.applyTo (← target fix.file) fix

/-- Put a file back as it was when a backup was made. -/
def rollback (file backup : Path) : Work Unit := do
  Backup.restore backup (← target file)

end Applier

end Mend.Patch
