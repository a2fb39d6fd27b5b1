import Mend.Issue

/-!
# Fixes and their life

A fix proposes new lines for a few lines of one file. It is pending until someone confirms or
rejects it; a confirmed fix is applied or fails; an applied one can be rolled back. No other step
is legal (`FixStatus.next?`), and a rejected, failed or rolled back fix takes no step at all.
-/

namespace Mend

/-- Where a fix is in its life. -/
inductive FixStatus where
  | pending | confirmed | rejected | applied | failed | rolledBack
  deriving Repr, DecidableEq

/-- What can happen to a fix. -/
inductive FixEvent where
  | confirm | reject | applySucceeded | applyFailed | rollBack
  deriving Repr, DecidableEq

namespace FixEvent

/-- The verb in an error message. -/
def action : FixEvent → String
  | confirm => "confirm"
  | reject => "reject"
  | applySucceeded | applyFailed => "apply"
  | rollBack => "roll back"

/-- The name in records. -/
def name : FixEvent → String
  | confirm => "confirm"
  | reject => "reject"
  | applySucceeded => "apply_succeeded"
  | applyFailed => "apply_failed"
  | rollBack => "roll_back"

/-- Every event. -/
def all : List FixEvent := [confirm, reject, applySucceeded, applyFailed, rollBack]

/-- The event with a name. -/
def ofName? (s : String) : Option FixEvent := all.find? fun e => e.name == s

end FixEvent

namespace FixStatus

/-- The name in records and reports. -/
def name : FixStatus → String
  | pending => "pending"
  | confirmed => "confirmed"
  | rejected => "rejected"
  | applied => "applied"
  | failed => "failed"
  | rolledBack => "rolled_back"

/-- Every status. -/
def all : List FixStatus := [pending, confirmed, rejected, applied, failed, rolledBack]

/-- The status with exactly this name. -/
def ofName? (s : String) : Option FixStatus := all.find? fun v => v.name == s

/-- Read a status of a record. -/
def ofData? (d : Data) : Option FixStatus := (d.toName? .json).bind ofName?

/-- The status after an event, if the event is legal. -/
def next? : FixStatus → FixEvent → Option FixStatus
  | pending, .confirm => some confirmed
  | pending, .reject => some rejected
  | confirmed, .applySucceeded => some applied
  | confirmed, .applyFailed => some failed
  | applied, .rollBack => some rolledBack
  | _, _ => none

/-- Nothing can happen to the fix any more. -/
def isTerminal : FixStatus → Bool
  | rejected | failed | rolledBack => true
  | _ => false

end FixStatus

/-- How a patch found its place in the file. -/
inductive Placement where
  /-- The lines stand in the file as they did. -/
  | exact
  /-- Most of the lines stand near where they did. -/
  | anchored
  /-- The lines are gone; the change is left in a comment. -/
  | manualComment
  deriving Repr, DecidableEq

namespace Placement

/-- The name in records and reports. -/
def name : Placement → String
  | exact => "exact"
  | anchored => "anchored"
  | manualComment => "manual_comment"

/-- Every placement. -/
def all : List Placement := [exact, anchored, manualComment]

/-- The placement with exactly this name. -/
def ofName? (s : String) : Option Placement := all.find? fun p => p.name == s

/-- Read a placement of a record. -/
def ofData? (d : Data) : Option Placement := (d.toName? .json).bind ofName?

/-- The record of a placement, or of none. -/
def toData? : Option Placement → Data
  | some p => .text p.name
  | none => .null

end Placement

/-- Another way to mend the same issue. -/
structure Alternative where
  title : String
  tradeoff : String
  confidence : Nat
  suggestedCode : Option String := none
  deriving Repr, DecidableEq

namespace Alternative

/-- The record of an alternative. -/
def toData (a : Alternative) : Data :=
  .record [("title", .text a.title), ("tradeoff", .text a.tradeoff),
    ("confidence", .ofNat a.confidence), ("suggested_code", .ofText? a.suggestedCode)]

/-- Read the record of an alternative. -/
def ofData? (d : Data) : Option Alternative := do
  let f ← Fields.of? .json ["title", "tradeoff", "confidence", "suggested_code"] d
  pure {
    title := ← f.required "title" Data.toText?
    tradeoff := ← f.required "tradeoff" Data.toText?
    confidence := ← f.required "confidence" (Data.toNat? Data.byteLimit)
    suggestedCode := ← f.optional "suggested_code" Data.toText? }

end Alternative

/-- A proposed change to one file. -/
structure Fix where
  id : String
  issueId : String
  platform : Platform
  template : String
  title : String
  description : String
  /-- From 0 to 100 as made; any byte as read. -/
  confidence : Nat
  file : Path
  /-- The line at which the replaced code starts. -/
  line : Nat
  replacedCode : String
  suggestedCode : String
  /-- The change as a unified diff with the file's line numbers. -/
  diff : String
  alternatives : List Alternative := []
  status : FixStatus := .pending
  createdAt : Time
  confirmedAt : Option Time := none
  appliedAt : Option Time := none
  rolledBackAt : Option Time := none
  backupPath : Option Path := none
  placement : Option Placement := none
  /-- The failed fix that this one replaces. -/
  retryOf : Option String := none
  deriving Repr, DecidableEq

namespace Fix

/-- The record of a time, or of none. -/
def timeData : Option Time → Data
  | some t => .text t.text
  | none => .null

/-- The record of a path, or of none. -/
def pathData : Option Path → Data
  | some p => .text p.text
  | none => .null

/-- The record of a fix. -/
def toData (f : Fix) : Data :=
  .record [("id", .text f.id), ("issue_id", .text f.issueId), ("platform", .text f.platform.name),
    ("template", .text f.template), ("title", .text f.title),
    ("description", .text f.description), ("confidence", .ofNat f.confidence),
    ("file", .text f.file.text), ("line", .ofNat f.line),
    ("original_code", .text f.replacedCode), ("suggested_code", .text f.suggestedCode),
    ("diff", .text f.diff), ("alternatives", .list (f.alternatives.map Alternative.toData)),
    ("status", .text f.status.name), ("created_at", .text f.createdAt.text),
    ("confirmed_at", timeData f.confirmedAt), ("applied_at", timeData f.appliedAt),
    ("rolled_back_at", timeData f.rolledBackAt), ("backup_path", pathData f.backupPath),
    ("apply_strategy", Placement.toData? f.placement), ("retry_of", .ofText? f.retryOf)]

/-- The names of a record's fields, in order. -/
def fieldNames : List String :=
  ["id", "issue_id", "platform", "template", "title", "description", "confidence", "file", "line",
   "original_code", "suggested_code", "diff", "alternatives", "status", "created_at",
   "confirmed_at", "applied_at", "rolled_back_at", "backup_path", "apply_strategy", "retry_of"]

/-- Read the record of a fix. -/
def ofData? (d : Data) : Option Fix := do
  let f ← Fields.of? .json fieldNames d
  pure {
    id := ← f.required "id" Data.toText?
    issueId := ← f.required "issue_id" Data.toText?
    platform := ← f.required "platform" (Platform.ofData? .json)
    template := ← f.required "template" Data.toText?
    title := ← f.required "title" Data.toText?
    description := ← f.required "description" Data.toText?
    confidence := ← f.required "confidence" (Data.toNat? Data.byteLimit)
    file := ← f.required "file" Issue.pathOf?
    line := ← f.required "line" (Data.toNat? Data.lineLimit)
    replacedCode := ← f.required "original_code" Data.toText?
    suggestedCode := ← f.required "suggested_code" Data.toText?
    diff := ← f.required "diff" Data.toText?
    alternatives := ← f.withDefault "alternatives" (Data.toList? Alternative.ofData?) []
    status := ← f.withDefault "status" FixStatus.ofData? .pending
    createdAt := ← f.required "created_at" Issue.timeOf?
    confirmedAt := ← f.optional "confirmed_at" Issue.timeOf?
    appliedAt := ← f.optional "applied_at" Issue.timeOf?
    rolledBackAt := ← f.optional "rolled_back_at" Issue.timeOf?
    backupPath := ← f.optional "backup_path" Issue.pathOf?
    placement := ← f.optional "apply_strategy" Placement.ofData?
    retryOf := ← f.optional "retry_of" Data.toText? }

end Fix

/-- What was tried on a file. -/
inductive PatchAction where
  | apply | rollback
  deriving Repr, DecidableEq

namespace PatchAction

/-- The name in records. -/
def name : PatchAction → String
  | apply => "apply"
  | rollback => "rollback"

/-- The action with exactly this name. -/
def ofName? (s : String) : Option PatchAction := [apply, rollback].find? fun a => a.name == s

/-- Read an action of a record. -/
def ofData? (d : Data) : Option PatchAction := (d.toName? .json).bind ofName?

end PatchAction

/-- One line of the audit trail: an attempt to apply or roll back a fix, and how it went. -/
structure Application where
  fixId : String
  action : PatchAction
  success : Bool
  placement : Option Placement := none
  backupPath : Option Path := none
  error : Option String := none
  appliedAt : Time
  deriving Repr, DecidableEq

namespace Application

/-- The record of an attempt. -/
def toData (a : Application) : Data :=
  .record [("fix_id", .text a.fixId), ("action", .text a.action.name),
    ("success", .bool a.success), ("strategy", Placement.toData? a.placement),
    ("backup_path", Fix.pathData a.backupPath), ("error", .ofText? a.error),
    ("applied_at", .text a.appliedAt.text)]

/-- Read the record of an attempt. -/
def ofData? (d : Data) : Option Application := do
  let f ← Fields.of? .json
    ["fix_id", "action", "success", "strategy", "backup_path", "error", "applied_at"] d
  pure {
    fixId := ← f.required "fix_id" Data.toText?
    action := ← f.required "action" PatchAction.ofData?
    success := ← f.required "success" Data.toBool?
    placement := ← f.optional "strategy" Placement.ofData?
    backupPath := ← f.optional "backup_path" Issue.pathOf?
    error := ← f.optional "error" Data.toText?
    appliedAt := ← f.required "applied_at" Issue.timeOf? }

end Application

end Mend
