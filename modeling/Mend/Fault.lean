import Mend.FileTree
import Mend.Fix

/-!
# What can go wrong

A fault says why an operation was refused or failed. Two of them, the missing record and the illegal
step, are found before anything is touched (`Fault.isPrecondition`).
-/

namespace Mend

/-- Why an operation failed. -/
inductive Fault where
  | io (path : Path) (cause : IoError)
  | notFound (entity id : String)
  | invalidState (id : String) (status : FixStatus) (action : String)
  /-- The patched text is unbalanced. -/
  | validation (file : Path) (reason : String)
  /-- A backup is not what was backed up. -/
  | integrity (path : Path)
  /-- A stored record cannot be read. -/
  | serialization
  /-- A text was cut inside a character. -/
  | badOffset (offset : Nat)
  deriving Repr, DecidableEq

namespace Fault

/-- There is no such issue. -/
def issueNotFound (id : String) : Fault := .notFound "issue" id

/-- There is no such fix. -/
def fixNotFound (id : String) : Fault := .notFound "fix" id

/-- The fault in words. -/
def message : Fault → String
  | io path cause => "I/O error on " ++ path.text ++ ": " ++ cause.message
  | notFound entity id => entity ++ " not found: " ++ id
  | invalidState id status action => "fix " ++ id ++ " is " ++ status.name ++ "; cannot " ++ action
  | validation file reason => "syntax sanity check failed for " ++ file.text ++ ": " ++ reason
  | integrity path =>
    "backup " ++ path.text ++ " does not match the checksum recorded at apply time"
  | serialization => "store serialization failed"
  | badOffset offset => s!"byte offset {offset} is not a character boundary"

/-- The fault is found before anything is touched. -/
def isPrecondition : Fault → Bool
  | notFound .. | invalidState .. => true
  | _ => false

end Fault

namespace Fix

/-- The status after an event, or the fault that the event is illegal. -/
def ensure (fix : Fix) (event : FixEvent) : Except Fault FixStatus :=
  match fix.status.next? event with
  | some status => .ok status
  | none => .error (.invalidState fix.id fix.status event.action)

/-- The fix after an event. -/
def transition (fix : Fix) (event : FixEvent) : Except Fault Fix :=
  (fix.ensure event).map fun status => { fix with status }

end Fix

end Mend
